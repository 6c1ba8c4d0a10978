import BananaWrt.Lib.Shell

/-!
# An AT command of the debug page

The page escapes the quotation marks of the command that is typed. The controller puts the command
at the end of a shell line as it comes, where the function `at` of `modem_debug.sh` is called, and
this hands its second argument to `sms_tool`. What the line finds (the values of variables, the home
directories, the files) is a parameter.
-/

namespace BananaWrt

namespace ModemDebug

open Shell

/-- The name of an AT port. -/
structure Port where
  chars : List Char
  plain : ∀ c ∈ chars, c.isAlphanum ∨ c = '/'
  ne_nil : chars ≠ []

/-- `at_command.replaceAll("\"", "\\\"")` -/
def escape (atCommand : List Char) : List Char :=
  atCommand.flatMap fun c => if c = '"' then ['\\', '"'] else [c]

/-- The command as it is sent. One that is empty is not sent. -/
def sendAtCommand (atCommand : List Char) : Option (List Char) :=
  if atCommand = [] then none else some (escape atCommand)

def scriptPath : List Char := "/usr/share/modem/".toList

/-- The line that `at` runs. -/
def atLine (atPort atCommand : List Char) : List Char :=
  "source ".toList ++ scriptPath ++ "modem_debug.sh && at ".toList ++ atPort ++ ' ' :: atCommand

/-- `${s/p/r}` for a pattern of one character. -/
def replaceFirst (p : Char) (r : List Char) : List Char → List Char
  | [] => []
  | c :: s => if c = p then r ++ s else c :: replaceFirst p r s

/-- The arguments that the function `at` calls `sms_tool` with. -/
def smsTool (args : List (List Char)) : List (List Char) :=
  let atPort := args.getD 0 []
  let newStr := replaceFirst '$' ['$'] (args.getD 1 [])
  let atCommand := replaceFirst '"' ['"'] newStr
  ["-d".toList, atPort, "at".toList, atCommand]

/-- Besides `source`, the line calls `at`, once and with two arguments, and no other command, and
`sms_tool` gets the command that was typed. -/
def SentAsTyped (env : Env) (atPort : Port) (atCommand : List Char) : Prop :=
  ∀ sent ∈ sendAtCommand atCommand, ∃ toks ∈ tokens (atLine atPort.chars sent),
    (∀ parts, .word parts ∈ toks → ∀ inQuotes text, .expansion inQuotes text ∈ parts →
      ¬ runsCommand text)
    ∧ ∃ arg, (commands toks).map (fun words => words.flatMap (fields env))
        = [["source".toList, scriptPath ++ "modem_debug.sh".toList],
          ["at".toList, atPort.chars, arg]]
      ∧ smsTool [atPort.chars, arg] = ["-d".toList, atPort.chars, "at".toList, atCommand]

/-- The characters that are read as what they are: no blank, no operator, no apostrophe and no
backquote, a backslash only at the end, and no dollar before what it would begin an expansion with.
-/
structure PlainChars (atCommand : List Char) : Prop where
  plain : ∀ c ∈ atCommand, ¬ isBlank c ∧ ¬ isOperator c ∧ c ≠ '\'' ∧ c ≠ '`'
  next : atCommand.IsChain fun c d => c ≠ '\\' ∧ ¬ (c = '$' ∧ beginsExpansion d)

/-- The command moreover begins with no number sign, and with a tilde only if a quotation mark or a
backslash comes before the first slash. -/
structure Plain (atCommand : List Char) : Prop extends PlainChars atCommand where
  noComment : '#' ∉ atCommand.head?
  noTilde : '~' ∈ atCommand.head? →
    ∃ c ∈ atCommand.takeWhile (· ≠ '/'), c = '"' ∨ c = '\\'

/-- The command has a pattern. -/
def HasPattern (atCommand : List Char) : Prop :=
  '*' ∈ atCommand ∨ '?' ∈ atCommand ∨ ['[', ']'].Sublist atCommand

def partOf (c : Char) : Part := if c = '"' ∨ c = '\\' then .quoted c else .char c

/-- The word that a plain command is. -/
def wordOf (atCommand : List Char) : List Part := atCommand.map partOf

end ModemDebug

end BananaWrt
