import DeviceApi.Text.Code
import DeviceApi.Text.Encoding
import DeviceApi.Text.Printable

/-!
# Quoted text

In messages a text stands between single quotes, or between double quotes if it holds a
single quote and no double one. The quote in use, the backslash and unprintable characters
are escaped.
-/

namespace DeviceApi.Text

/-- One character between quotes of the given kind. -/
def quotedChar (quote c : Char) : List Char :=
  if c = quote ∨ c = '\\' then ['\\', c]
  else if c = '\n' then ['\\', 'n']
  else if c = '\r' then ['\\', 'r']
  else if c = '\t' then ['\\', 't']
  else if isPrintable c then [c]
  else
    let code := codeOf c
    if code < 0x100 then '\\' :: 'x' :: hexDigits 2 code
    else if code < 0x10000 then '\\' :: 'u' :: hexDigits 4 code
    else '\\' :: 'U' :: hexDigits 8 code

/-- The quote between which characters stand. -/
def quoteFor (cs : List Char) : Char :=
  if cs.contains '\'' && !cs.contains '"' then '"' else '\''

/-- The quoted form of a text. -/
def quoted (text : String) : String :=
  let cs := text.toList
  let quote := quoteFor cs
  String.ofList (quote :: (cs.flatMap (quotedChar quote) ++ [quote]))

/-- The quoted form of octets: those of ASCII are shown as characters, and a letter stands in
front of the quote. -/
def quotedOctets (bytes : List UInt8) : String :=
  let cs := bytes.map fun b => Char.ofNat b.toNat
  let quote := quoteFor cs
  let shown (c : Char) : List Char :=
    if c.toNat < 0x80 then quotedChar quote c else '\\' :: 'x' :: hexDigits 2 c.toNat
  String.ofList ('b' :: quote :: (cs.flatMap shown ++ [quote]))

end DeviceApi.Text
