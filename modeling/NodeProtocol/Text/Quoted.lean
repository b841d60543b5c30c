import NodeProtocol.Text.Digit
import NodeProtocol.Text.Extender
import NodeProtocol.Text.Unprintable

namespace NodeProtocol.Text

def codePointEscape (c : Char) : String :=
  "\\u\x7b" ++ hexadecimal c.toNat ++ "\x7d"

def escape (quote c : Char) : String :=
  if c = '\x00' then "\\0"
  else if c = '\t' then "\\t"
  else if c = '\r' then "\\r"
  else if c = '\n' then "\\n"
  else if c = '\\' ∨ c = quote then String.ofList ['\\', c]
  else if isExtender c || !isPrintable c then codePointEscape c
  else String.singleton c

def quoted (text : String) : String :=
  "\"" ++ String.join (text.toList.map (escape '"')) ++ "\""

def quotedChar (c : Char) : String :=
  "'" ++ escape '\'' c ++ "'"

end NodeProtocol.Text
