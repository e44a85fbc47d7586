import DeviceApi.Text.Lines

/-!
# Scripts of the shell

A script is built from simple commands, which are words, settings of variables and redirections.
A word is put together from literal texts and from parts that are replaced when it is used.
-/

namespace DeviceApi.Command.Shell

/-- What a parameter stands for. -/
inductive ParameterUse where
  | value
  | length
  /-- A word in place of a missing value. -/
  | default
  /-- The same, and the parameter is given that value. -/
  | assign
  /-- A complaint about a missing value. -/
  | demand
  /-- A word in place of a value that is there. -/
  | replace
  /-- The value without a beginning that matches a word, a longest or a shortest one. -/
  | cutStart (longest : Bool)
  | cutEnd (longest : Bool)
  | unknown
  deriving DecidableEq, Repr

/-- What a redirection does with a stream. -/
inductive RedirectionKind where
  | read | write | append | readWrite | copy | document
  deriving DecidableEq, Repr

mutual

/-- A part of a word. What is quoted is neither split nor read as a pattern. -/
inductive WordPart where
  | text (cs : List Char) (quoted : Bool)
  /-- Quotes, between which there may be nothing. -/
  | quotes (parts : List WordPart)
  /-- A parameter; an empty value counts as a missing one if `emptyToo` holds. -/
  | parameter (name : String) (use : ParameterUse) (emptyToo : Bool) (word : List WordPart)
      (quoted : Bool)
  /-- What a script writes. -/
  | output (script : Option Script) (quoted : Bool)
  | arithmetic (expression : List WordPart) (quoted : Bool)

/-- A stream that leads elsewhere. -/
inductive Redirection where
  | lead (stream : Nat) (kind : RedirectionKind) (target : List WordPart)

/-- A script. Commands know the line in which they begin. -/
inductive Script where
  | simple (line : Nat) (settings : List (String × List WordPart)) (words : List (List WordPart))
      (redirections : List Redirection)
  | pipe (commands : List Script)
  | negated (body : Script)
  | both (first second : Script)
  | either (first second : Script)
  | sequence (first second : Script)
  | background (body : Script)
  | subshell (line : Nat) (body : Option Script)
  | redirected (line : Nat) (body : Script) (redirections : List Redirection)
  | branch (condition yes : Option Script) (no : Option Script)
  /-- A loop that goes on as long as its condition comes out as `wanted`. -/
  | loop (wanted : Bool) (condition body : Option Script)
  | each (line : Nat) (name : String) (words : List (List WordPart)) (body : Option Script)
  | choice (line : Nat) (word : List WordPart)
      (cases : List (List (List WordPart) × Option Script))
  | definition (name : String) (body : Script)

end

/-- The parts of a word. -/
abbrev Word := List WordPart

/-- The text of a word without quotes and parameters. -/
def bare? : Word → Option (List Char)
  | [] => some []
  | .text cs false :: rest => (bare? rest).map (cs ++ ·)
  | _ :: _ => none

/-- The text of a word that begins with the home folder, of which the first sign has been read,
if nothing but a slash or the end follows; in a list of paths a colon may follow as well. -/
def withHome (home : String) (isList isLast : Bool) (behind : List Char) : Option Word :=
  match behind with
  | [] => if isLast then some [.text home.toList true] else none
  | c :: _ =>
    if c == '/' || (isList && c == ':') then some [.text home.toList true, .text behind false]
    else none

/-- A word in which the sign of the home folder at the front is replaced, and in a list of paths
also behind colons. -/
def expandHome (home : String) (isList : Bool) (w : Word) : Word :=
  let pathsOf (isFirst isLast : Bool) (cs : List Char) : Word :=
    let paths := if isList then Text.splitAtChar ':' cs else [cs]
    let shown := paths.zipIdx.map fun (path, n) =>
      let endsWord := isLast && n + 1 = paths.length
      match path, isFirst || n ≠ 0 with
      | '~' :: behind, true =>
        (withHome home isList (endsWord || n + 1 ≠ paths.length) behind).getD [.text path false]
      | path, _ => [.text path false]
    (shown.intersperse [.text [':'] false]).flatten
  w.zipIdx.flatMap fun (part, n) =>
    match part with
    | .text cs false => pathsOf (n = 0) (n + 1 = w.length) cs
    | part => [part]

/-- Words that have a meaning of their own at the beginning of a command. -/
def reservedWords : List String :=
  ["!", "case", "do", "done", "elif", "else", "esac", "fi", "for", "if", "then", "until", "while",
   "\x7b", "\x7d"]

/-- The smallest parts of the text of a script. -/
inductive Token where
  | word (w : Word)
  | reserved (name : String)
  | operator (text : String)
  | redirection (stream : Option Nat) (operator : String)
  | finish

namespace Token

/-- The name of a token in a complaint. -/
def name : Token → String
  | word _ => "word"
  | reserved name => "\"" ++ name ++ "\""
  | operator "\n" => "newline"
  | operator text => "\"" ++ text ++ "\""
  | redirection .. => "redirection"
  | finish => "end of file"

/-- Whether a token is a given operator. -/
def isOperator (text : String) : Token → Bool
  | operator other => other == text
  | _ => false

/-- Whether a token is a given reserved word. -/
def isReserved (name : String) : Token → Bool
  | reserved other => other == name
  | _ => false

/-- Whether a list of commands may end in front of a token. -/
def endsList : Token → Bool
  | operator text => text == ")" || text == ";;"
  | reserved name => ["do", "done", "elif", "else", "esac", "fi", "then", "\x7d"].contains name
  | finish => true
  | _ => false

/-- The token as a reserved word, if it is one. -/
def withReserved (t : Token) : Token :=
  match t with
  | word w =>
    match (bare? w).map String.ofList with
    | some name => if reservedWords.contains name then reserved name else t
    | none => t
  | t => t

end Token

/-- Whether a character may stand in a name. -/
def isNameChar (c : Char) : Bool := c.isAlphanum || c == '_'

/-- Whether a text is a name. -/
def isName (cs : List Char) : Bool :=
  match cs with
  | [] => false
  | c :: _ => !c.isDigit && cs.all isNameChar

/-- The setting of a variable that a word is. -/
def setting? : Word → Option (String × Word)
  | .text cs false :: rest =>
    let name := cs.takeWhile isNameChar
    match cs.drop name.length with
    | '=' :: value =>
      if isName name then some (String.ofList name, .text value false :: rest) else none
    | _ => none
  | _ => none

/-- Commands of the shell whose faults end it. -/
def specialCommands : List String :=
  [".", ":", "break", "continue", "eval", "exec", "exit", "export", "local", "readonly", "return",
   "set", "shift", "times", "trap", "unset"]

/-- Commands of the shell that set names. A word that sets a name is one text in them. -/
def declaringCommands : List String := ["alias", "export", "local", "readonly"]

/-- Whether the words at the front of a command name one that sets names. -/
def declaresNames (words : List String) : Bool :=
  (words.find? fun word => !(["command", "-p", "--"].contains word)).any declaringCommands.contains

/-- What follows the opening quote of a text. Quotes in the text stand between double ones. -/
def behindQuote : (double : Bool) → List Char → List Char
  | false, [] => ['\'']
  | true, [] => ['"']
  | false, c :: rest =>
    if c == '\'' then '\'' :: '"' :: '\'' :: behindQuote true rest else c :: behindQuote false rest
  | true, c :: rest =>
    if c == '\'' then '\'' :: behindQuote true rest
    else '"' :: '\'' :: c :: behindQuote false rest

/-- A text between quotes. -/
def quotedText (s : String) : String := String.ofList ('\'' :: behindQuote false s.toList)

end DeviceApi.Command.Shell
