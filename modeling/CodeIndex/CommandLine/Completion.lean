import CodeIndex.CommandLine.Basic

/-!
# Completion scripts

* `completionScript` : what a shell needs to complete the arguments of the program.
-/

namespace CodeIndex.CommandLine

/-- Lines, each with its end. -/
def lines (ls : List String) : String := String.join (ls.map (· ++ "\n"))

/-- A text in which some characters are replaced. -/
def replaced (f : Char → Option String) (s : String) : String :=
  String.join (s.toList.map fun c => (f c).getD (String.singleton c))

/-- A text for single quotes that are doubled. -/
def doubledQuotes : String → String := replaced fun c => if c = '\'' then some "''" else none

/-- The ways to write an option. -/
def spellings (a : Argument) : List String :=
  (a.short?.map fun c => "-" ++ String.singleton c).toList ++ ["--" ++ a.long]

/-- The options with a value. -/
def valuedOptions : List Argument := Argument.options.filter (·.valueName?.isSome)

/-- The options without a value. -/
def plainOptions : List Argument := Argument.options.filter (·.valueName?.isNone)

/-- Whether the value of an option is a path. -/
def takesPath (a : Argument) : Bool :=
  a = .option .outputDir || a = .option .jsonOutput

/-- The script for bash. -/
def bashScript : String :=
  let letters := Argument.options.filterMap fun a =>
    a.short?.map fun c => "-" ++ String.singleton c
  let words := letters ++ (Argument.options.map fun a => "--" ++ a.long) ++ ["[PROJECT]"]
  let reply (a : Argument) : String :=
    if a.choices.isEmpty then "COMPREPLY=($(compgen -f \"$\x7bcur\x7d\"))"
    else
      "COMPREPLY=($(compgen -W \"" ++ String.intercalate " " (a.choices.map (·.1)) ++
        "\" -- \"$\x7bcur\x7d\"))"
  let cases := valuedOptions.flatMap fun a => (spellings a).reverse.flatMap fun s =>
    ["                " ++ s ++ ")",
     "                    " ++ reply a,
     "                    return 0",
     "                    ;;"]
  lines (
    ["_generate-index() \x7b",
     "    local i cur prev opts cmd",
     "    COMPREPLY=()",
     "    if [[ \"$\x7bBASH_VERSINFO[0]\x7d\" -ge 4 ]]; then",
     "        cur=\"$2\"",
     "    else",
     "        cur=\"$\x7bCOMP_WORDS[COMP_CWORD]\x7d\"",
     "    fi",
     "    prev=\"$3\"",
     "    cmd=\"\"",
     "    opts=\"\"",
     "",
     "    for i in \"$\x7bCOMP_WORDS[@]:0:COMP_CWORD\x7d\"",
     "    do",
     "        case \"$\x7bcmd\x7d,$\x7bi\x7d\" in",
     "            \",$1\")",
     "                cmd=\"generate__index\"",
     "                ;;",
     "            *)",
     "                ;;",
     "        esac",
     "    done",
     "",
     "    case \"$\x7bcmd\x7d\" in",
     "        generate__index)",
     "            opts=\"" ++ String.intercalate " " words ++ "\"",
     "            if [[ $\x7bcur\x7d == -* || $\x7bCOMP_CWORD\x7d -eq 1 ]] ; then",
     "                COMPREPLY=( $(compgen -W \"$\x7bopts\x7d\" -- \"$\x7bcur\x7d\") )",
     "                return 0",
     "            fi",
     "            case \"$\x7bprev\x7d\" in"] ++ cases ++
    ["                *)",
     "                    COMPREPLY=()",
     "                    ;;",
     "            esac",
     "            COMPREPLY=( $(compgen -W \"$\x7bopts\x7d\" -- \"$\x7bcur\x7d\") )",
     "            return 0",
     "            ;;",
     "    esac",
     "\x7d",
     "",
     "if [[ \"$\x7bBASH_VERSINFO[0]\x7d\" -eq 4 && \"$\x7bBASH_VERSINFO[1]\x7d\" -ge 4 || " ++
       "\"$\x7bBASH_VERSINFO[0]\x7d\" -gt 4 ]]; then",
     "    complete -F _generate-index -o nosort -o bashdefault -o default generate-index",
     "else",
     "    complete -F _generate-index -o bashdefault -o default generate-index",
     "fi"])

/-- The description of an option between brackets and single quotes. -/
def zshText : String → String := replaced fun c =>
  if c = '\'' then some "'\\''"
  else if ['[', ']', ':', '$', '\\'].contains c then some ("\\" ++ String.singleton c)
  else none

/-- The script for zsh. -/
def zshScript : String :=
  let choices (a : Argument) : String :=
    if a.choices.isEmpty then (if takesPath a then "_files" else "_default")
    else if a.choices.all (·.2.isSome) then
      "((" ++ String.intercalate "\n" (a.choices.map fun c =>
        c.1 ++ "\\:\"" ++ c.2.getD "" ++ "\"") ++ "))"
    else "(" ++ String.intercalate " " (a.choices.map (·.1)) ++ ")"
  let valued (a : Argument) : List String :=
    let rest := "[" ++ zshText (a.description true) ++ "]:" ++ a.valueName?.getD "" ++ ":" ++
      choices a ++ "' \\"
    (a.short?.map fun c => "'-" ++ String.singleton c ++ "+" ++ rest).toList ++
      ["'--" ++ a.long ++ "=" ++ rest]
  let plain (a : Argument) : List String :=
    (spellings a).map fun s => "'" ++ s ++ "[" ++ zshText (a.description false) ++ "]' \\"
  lines (
    ["#compdef generate-index",
     "",
     "autoload -U is-at-least",
     "",
     "_generate-index() \x7b",
     "    typeset -A opt_args",
     "    typeset -a _arguments_options",
     "    local ret=1",
     "",
     "    if is-at-least 5.2; then",
     "        _arguments_options=(-s -S -C)",
     "    else",
     "        _arguments_options=(-s -C)",
     "    fi",
     "",
     "    local context curcontext=\"$curcontext\" state line",
     "    _arguments \"$\x7b_arguments_options[@]\x7d\" : \\"] ++
    valuedOptions.flatMap valued ++
    plainOptions.flatMap plain ++
    ["'::project -- " ++ zshText (Argument.project.description false) ++ ":_files' \\",
     "&& ret=0",
     "\x7d",
     "",
     "(( $+functions[_generate-index_commands] )) ||",
     "_generate-index_commands() \x7b",
     "    local commands; commands=()",
     "    _describe -t commands 'generate-index commands' commands \"$@\"",
     "\x7d",
     "",
     "if [ \"$funcstack[1]\" = \"_generate-index\" ]; then",
     "    _generate-index \"$@\"",
     "else",
     "    compdef _generate-index generate-index",
     "fi"])

/-- The script for fish. -/
def fishScript : String :=
  let text : String → String := replaced fun c =>
    if c = '\'' then some "\\'" else if c = '\\' then some "\\\\" else none
  let value (a : Argument) : String :=
    if a.valueName?.isNone then ""
    else if a.choices.isEmpty then (if takesPath a then " -r -F" else " -r")
    else
      " -r -f -a \"" ++ String.intercalate "\n" (a.choices.map fun c =>
        c.1 ++ "\\t'" ++ c.2.getD "" ++ "'") ++ "\""
  let line (a : Argument) : String :=
    "complete -c generate-index" ++
      ((a.short?.map fun c => " -s " ++ String.singleton c).getD "") ++ " -l " ++ a.long ++
      " -d '" ++ text (a.description false) ++ "'" ++ value a
  lines ((valuedOptions ++ plainOptions).map line)

/-- The script for PowerShell. -/
def powerShellScript : String :=
  let line (a : Argument) (s : String) : String :=
    "            [CompletionResult]::new('" ++ s ++ "', '" ++ s ++
      "', [CompletionResultType]::ParameterName, '" ++ doubledQuotes (a.description false) ++ "')"
  lines (
    ["",
     "using namespace System.Management.Automation",
     "using namespace System.Management.Automation.Language",
     "",
     "Register-ArgumentCompleter -Native -CommandName 'generate-index' -ScriptBlock \x7b",
     "    param($wordToComplete, $commandAst, $cursorPosition)",
     "",
     "    $commandElements = $commandAst.CommandElements",
     "    $command = @(",
     "        'generate-index'",
     "        for ($i = 1; $i -lt $commandElements.Count; $i++) \x7b",
     "            $element = $commandElements[$i]",
     "            if ($element -isnot [StringConstantExpressionAst] -or",
     "                $element.StringConstantType -ne [StringConstantType]::BareWord -or",
     "                $element.Value.StartsWith('-') -or",
     "                $element.Value -eq $wordToComplete) \x7b",
     "                break",
     "        \x7d",
     "        $element.Value",
     "    \x7d) -join ';'",
     "",
     "    $completions = @(switch ($command) \x7b",
     "        'generate-index' \x7b"] ++
    ((valuedOptions ++ plainOptions).flatMap fun a => (spellings a).map (line a)) ++
    ["            break",
     "        \x7d",
     "    \x7d)",
     "",
     "    $completions.Where\x7b $_.CompletionText -like \"$wordToComplete*\" \x7d |",
     "        Sort-Object -Property ListItemText",
     "\x7d"])

/-- The script for elvish. -/
def elvishScript : String :=
  let line (a : Argument) (s : String) : String :=
    "            cand " ++ s ++ " '" ++ doubledQuotes (a.description false) ++ "'"
  lines (
    ["",
     "use builtin;",
     "use str;",
     "",
     "set edit:completion:arg-completer[generate-index] = \x7b|@words|",
     "    fn spaces \x7b|n|",
     "        builtin:repeat $n ' ' | str:join ''",
     "    \x7d",
     "    fn cand \x7b|text desc|",
     "        edit:complex-candidate $text &display=$text' '(spaces (- 14 (wcswidth $text)))$desc",
     "    \x7d",
     "    var command = 'generate-index'",
     "    for word $words[1..-1] \x7b",
     "        if (str:has-prefix $word '-') \x7b",
     "            break",
     "        \x7d",
     "        set command = $command';'$word",
     "    \x7d",
     "    var completions = [",
     "        &'generate-index'= \x7b"] ++
    ((valuedOptions ++ plainOptions).flatMap fun a => (spellings a).map (line a)) ++
    ["        \x7d",
     "    ]",
     "    $completions[$command]",
     "\x7d"])

/-- What a shell needs to complete the arguments of the program. -/
def completionScript : CompletionShell → String
  | .bash => bashScript
  | .zsh => zshScript
  | .fish => fishScript
  | .powerShell => powerShellScript
  | .elvish => elvishScript

end CodeIndex.CommandLine
