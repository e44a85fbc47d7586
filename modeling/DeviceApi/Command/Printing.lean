import DeviceApi.Command.Printing.Number

/-!
# Printing

The command `printf` writes its arguments as a format says; the format is used again as long as
arguments are left. The command `echo` writes its arguments in a line.
-/

namespace DeviceApi.Command.Printing

/-- What has been written, the arguments that are left, complaints, and whether output goes
on. -/
structure State where
  out : Octets := []
  args : List String
  complaints : List String := []
  code : Int := 0
  goesOn : Bool := true
  /-- Whether an argument has been used. -/
  used : Bool := false

/-- Takes the next argument; behind the last one all are empty. -/
def State.take (s : State) : Option String × State :=
  match s.args with
  | [] => (none, { s with used := true })
  | arg :: args => (some arg, { s with args, used := true })

/-- Writes octets. -/
def State.put (s : State) (bytes : Octets) : State := { s with out := s.out ++ bytes }

/-- Adds complaints, which make the command fail. -/
def State.complain (s : State) (lines : List String) : State :=
  let failed := lines.any fun line => !line.startsWith "warning"
  { s with complaints := s.complaints ++ lines, code := if failed then 1 else s.code }

/-- Ends all output for a fault of the format. -/
def State.fail (s : State) (d : Dialect) (line : String) : State :=
  { s with complaints := s.complaints ++ [line], code := d.badFormatCode, goesOn := false }

/-- Octets with at least the stated width. -/
def pad (d : Directive) (bytes : Octets) : Octets :=
  let blanks := List.replicate (d.width - bytes.length) 32
  if d.left then bytes ++ blanks else blanks ++ bytes

/-- The number in a directive, or the next argument in place of a star. -/
def size (dialect : Dialect) (cs : List Char) (s : State) : Option Int × List Char × State :=
  match cs with
  | '*' :: rest =>
    let (arg, s) := s.take
    let (i, complaints) := integerOf dialect true (arg.getD "")
    (some i, rest, s.complain complaints)
  | _ =>
    let digits := cs.takeWhile Char.isDigit
    (if digits.isEmpty then none
      else some (RealText.natural 10 digits : Int), cs.drop digits.length, s)

/-- Writes an argument with escapes. -/
def writeUnescaped (dialect : Dialect) (d : Directive) (s : State) : State :=
  let (arg, s) := s.take
  let text := (arg.getD "").toList
  let (bytes, sequel) := unescaped dialect (text.length + 1) text
  let shown := match d.precision with
    | some n => bytes.take n
    | none => bytes
  let s := s.put (pad d shown)
  match sequel with
  | .goesOn => s
  | .stops => { s with goesOn := false }
  | .fails message => s.fail dialect message

/-- Writes an argument as a directive says. -/
def writeArgument (dialect : Dialect) (d : Directive) (kind : Char) (s : State) : State :=
  let (arg, s) := s.take
  let given := arg.getD ""
  match kind with
  | 's' =>
    let bytes := octets given
    s.put (pad d (match d.precision with
      | some n => bytes.take n
      | none => bytes))
  | 'c' => s.put (pad d (if given == "" then [0] else (octets given).take 1))
  | 'd' | 'i' | 'u' | 'o' | 'x' | 'X' =>
    let (i, complaints) := integerOf dialect (kind == 'd' || kind == 'i') given
    (s.complain complaints).put (octets (String.ofList (integerText d kind i)))
  | _ =>
    let (negative, x, complaints) := realOf dialect given
    let text := realText dialect.reals d kind negative x
    (s.complain complaints).put (octets (String.ofList text))

/-- Whether a directive that has flags, and perhaps a precision, may end with a letter. -/
def Dialect.allows (dialect : Dialect) (flags : List Char) (hasPrecision : Bool) (kind : Char) :
    Bool :=
  let unfit : Char → String
    | '\'' | 'I' => "aAceEosxX"
    | '#' => "cdisu"
    | '0' => "cs"
    | _ => ""
  if dialect.isSeparate then
    "scdiuoxXaAeEfFgG".contains kind && !(hasPrecision && kind == 'c') &&
      flags.all fun flag => !(unfit flag).contains kind
  else "scbdiuoxXaAeEfFgG".contains kind

/-- The greatest width and precision that are followed. -/
def maxSize : Nat := 10000000

/-- Writes the directive behind a percent sign, and answers what follows it. -/
def writeDirective (dialect : Dialect) (whole : List Char) (s : State) : List Char × State :=
  let flags := whole.takeWhile (if dialect.isSeparate then "-+ #0'I" else "-+ #0").toList.contains
  let d := (({} : Directive).withFlags (flags.filter fun c => c != '\'' && c != 'I')).1
  let (width, rest, s) := size dialect (whole.drop flags.length) s
  let d := match width with
    | some w => { d with width := w.natAbs, left := d.left || decide (w < 0) }
    | none => d
  let hasPrecision := rest.head? == some '.'
  let (d, rest, s) :=
    if hasPrecision then
      let (precision, rest, s) := size dialect (rest.drop 1) s
      let precision := precision.getD 0
      ({ d with precision := if precision < 0 then none else some precision.toNat }, rest, s)
    else (d, rest, s)
  let rest := if dialect.isSeparate then rest.dropWhile "lLhjzt".toList.contains else rest
  match rest with
  | [] => ([], s.fail dialect (dialect.unfinished (String.ofList whole)))
  | kind :: behind =>
    if !dialect.allows flags hasPrecision kind then
      let text := String.ofList (whole.take (whole.length - behind.length))
      (behind, s.fail dialect (dialect.unknownDirective text))
    else if maxSize < d.width || maxSize < d.precision.getD 0 then
      (behind, s.fail dialect dialect.tooWide)
    else (behind, if kind == 'b' then writeUnescaped dialect d s else writeArgument dialect d kind s)

/-- Writes the format once. -/
def once (dialect : Dialect) : (fuel : Nat) → List Char → State → State
  | 0, _, s => s
  | fuel + 1, cs, s =>
    if !s.goesOn then s
    else
      match cs with
      | [] => s
      | '\\' :: rest =>
        match escape dialect false rest with
        | (.octets bytes, rest) => once dialect fuel rest (s.put bytes)
        | (.stop, _) => { s with goesOn := false }
        | (.refused message, _) => s.fail dialect message
      | '%' :: '%' :: rest => once dialect fuel rest (s.put [37])
      | '%' :: whole =>
        match whole, dialect.isSeparate with
        | 'b' :: rest, true => once dialect fuel rest (writeUnescaped dialect {} s)
        | 'q' :: rest, true =>
          let (arg, s) := s.take
          once dialect fuel rest (s.put ((arg.map fun word => octets (quotedWord word)).getD []))
        | whole, _ =>
          let (rest, s) := writeDirective dialect whole s
          once dialect fuel rest s
      | c :: rest => once dialect fuel rest (s.put (octets (.singleton c)))

/-- Writes the format until all arguments are used. -/
def repeated (dialect : Dialect) (format : String) : (fuel : Nat) → State → State
  | 0, s => s
  | fuel + 1, s =>
    let s := once dialect (format.length + 1) format.toList { s with used := false }
    if !s.goesOn then s
    else
      match s.used, s.args, dialect.excess with
      | true, _ :: _, _ => repeated dialect format fuel s
      | false, arg :: _, some warning => { s with complaints := s.complaints ++ [warning arg] }
      | _, _, _ => s

/-- Writes a format with its arguments. -/
def print (dialect : Dialect) (format : String) (args : List String) : Outcome :=
  let s := repeated dialect format (args.length + 1) { args }
  let lines := s.complaints.map fun line => s!"{dialect.name}: {line}\n"
  { code := s.code, written := [(.err, octets (String.join lines)), (.out, s.out)] }

/-- Runs the command of its own under the name it is called by. -/
def command (self : String) (args : List String) : Outcome :=
  let args := if args.head? == some "--" then args.drop 1 else args
  match args with
  | [] => .complains 1 s!"{self}: missing operand\nTry '{self} --help' for more information."
  | format :: args => print (separate self) format args

/-- Runs the part of a shell that complains under a given name. -/
def inShell (name : String) (args : List String) : Outcome :=
  let usage : Outcome := .complains 2 (name ++ ": usage: printf format [arg ...]")
  match args with
  | [] => usage
  | format :: args =>
    if format == "--" then
      match args with
      | [] => usage
      | format :: args => print (builtin name) format args
    else
      match format.toList with
      | '-' :: c :: _ => .complains 2 s!"{name}: Illegal option -{c}"
      | _ => print (builtin name) format args

/-- Runs the `echo` of a shell, which reads escapes and may leave out the end of the line. -/
def echo (args : List String) : Outcome :=
  let (ends, args) := match args with
    | "-n" :: rest => (false, rest)
    | _ => (true, args)
  let text := (" ".intercalate args).toList
  let (bytes, sequel) := unescaped (builtin "echo") (text.length + 1) text
  .writes (if sequel = .goesOn && ends then bytes ++ [10] else bytes)

/-- The escape behind a backslash in what `echo` is given, and what follows it. -/
def echoEscape (cs : List Char) : Escape × List Char :=
  let octal (digits rest : List Char) : Escape × List Char :=
    (.octets [UInt8.ofNat (RealText.natural 8 digits)], rest.drop digits.length)
  match cs with
  | 'c' :: rest => (.stop, rest)
  | 'x' :: rest =>
    match hexEscape 'x' rest with
    | (.octets bytes, rest) => (.octets bytes, rest)
    | _ => (.octets [92, 120], rest)
  | '0' :: rest => octal ((rest.take 3).takeWhile isOctal) rest
  | c :: rest =>
    if isOctal c then octal ((cs.take 3).takeWhile isOctal) cs
    else
      match if c == '"' then none else letterOctet? c with
      | some octet => (.octets [octet], rest)
      | none => (.octets (92 :: octets (.singleton c)), rest)
  | [] => (.octets [92], [])

/-- A text in which escapes are replaced, and whether output goes on behind it. -/
def echoText : (fuel : Nat) → List Char → Octets × Bool
  | 0, _ => ([], true)
  | _, [] => ([], true)
  | fuel + 1, '\\' :: rest =>
    match echoEscape rest with
    | (.octets bytes, rest) =>
      let (more, goesOn) := echoText fuel rest
      (bytes ++ more, goesOn)
    | _ => ([], false)
  | fuel + 1, c :: rest =>
    let (more, goesOn) := echoText fuel rest
    (octets (.singleton c) ++ more, goesOn)

/-- Runs the command `echo` of its own, which reads escapes if it is told to. -/
def echoCommand (args : List String) : Outcome :=
  let isOption (word : String) : Bool :=
    match word.toList with
    | '-' :: letters => !letters.isEmpty && letters.all "neE".toList.contains
    | _ => false
  let letters := ((args.takeWhile isOption).flatMap String.toList).filter (· != '-')
  let text := " ".intercalate (args.dropWhile isOption)
  let ends := !letters.contains 'n'
  let escapes := (letters.filter (· != 'n')).getLast? == some 'e'
  let (bytes, goesOn) := if escapes then echoText (text.length + 1) text.toList
    else (octets text, true)
  .writes (if ends && goesOn then bytes ++ [10] else bytes)

end DeviceApi.Command.Printing
