import Espalier.Json.Printer
import Espalier.Json.Tree
import Espalier.Yaml.Scalar

/-!
# Trees as YAML

A tree is written as block collections with two more blanks for each level.  A text stays plain
where it reads back as the same text and nothing in it could be taken for an indicator; otherwise it
goes between double quotes.
-/

namespace Espalier
namespace Yaml

/-- Characters that a plain text may not start with. -/
def indicators : List Char :=
  ['-', '?', ':', '[', ']', '{', '}', ',', '#', '&', '*', '!', '|', '>', '\x27', '"', '%', '@',
    '\x60']

/-- The words for numbers that are not finite. -/
def isSpecialWord (s : String) : Bool :=
  [".nan", ".inf", "-.inf", "+.inf"].contains (Ascii.fold s)

/-- Whether a plain text would stand for itself. -/
def isUnambiguous (s : String) : Bool :=
  match plainTree s with
  | .text t => t == s && !isSpecialWord s
  | _ => false

/-- Whether a colon is followed by a blank or by nothing. -/
def hasOpenColon : List Char → Bool
  | [] => false
  | ':' :: [] => true
  | ':' :: c :: rest => c == ' ' || hasOpenColon (c :: rest)
  | _ :: rest => hasOpenColon rest

/-- Whether a text can be written without quotes. -/
def isPlain (s : String) : Bool :=
  match s.toList with
  | [] => false
  | c :: rest =>
    isUnambiguous s && !indicators.contains c && c != ' ' && (c :: rest).getLast? != some ' ' &&
      !hasOpenColon (c :: rest) &&
      (c :: rest).all fun d => d != ',' && d != '#' && d.toNat ≥ 32 && d.toNat != 127

def stringText (s : String) : String :=
  if isPlain s then s else String.ofList (Json.quotedChars s)

def margin (level : Nat) : String :=
  String.ofList (List.replicate (2 * level) ' ')

mutual

/-- The text of a tree after the mark of its entry, up to the end of the line. -/
def valueText (level : Nat) : Tree → String
  | .text s => " " ++ stringText s ++ "\n"
  | .seq [] => " []\n"
  | .map [] => " \x7b\x7d\n"
  | .seq items => "\n" ++ itemsText level items
  | .map entries => "\n" ++ entriesText level entries
  | t => " " ++ t.jsonText ++ "\n"

def itemsText (level : Nat) : List Tree → String
  | [] => ""
  | t :: rest => margin level ++ "-" ++ valueText (level + 1) t ++ itemsText level rest

def entriesText (level : Nat) : List (String × Tree) → String
  | [] => ""
  | (key, t) :: rest =>
    margin level ++ stringText key ++ ":" ++ valueText (level + 1) t ++ entriesText level rest

end

end Yaml

def Entries.yamlText (entries : Entries Tree) : String :=
  Yaml.entriesText 0 entries

end Espalier
