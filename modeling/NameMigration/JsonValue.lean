import NameMigration.Text.Quoted

/-!
JSON values and their layout over several lines: two blanks for each level, one item or field a
line, and nothing between the brackets of what is empty.
-/

namespace NameMigration

inductive JsonValue where
  | null
  | bool (value : Bool)
  | number (value : Nat)
  | text (value : Text)
  | array (items : List JsonValue)
  | object (fields : List (Text × JsonValue))

namespace JsonValue

def escapeChar (c : Char) : Text :=
  match c with
  | '"' => ['\\', '"']
  | '\\' => ['\\', '\\']
  | '\x08' => ['\\', 'b']
  | '\t' => ['\\', 't']
  | '\n' => ['\\', 'n']
  | '\x0c' => ['\\', 'f']
  | '\r' => ['\\', 'r']
  | _ =>
      if c.toNat < 0x20 then
        "\\u00".toList ++ (if c.toNat < 0x10 then ['0'] else []) ++ Text.hexDigits c.toNat
      else [c]

def escaped (text : Text) : Text :=
  ['"'] ++ text.flatMap escapeChar ++ ['"']

def indent (level : Nat) : Text :=
  List.replicate (2 * level) ' '

mutual

def layoutAt (level : Nat) : JsonValue → Text
  | .null => "null".toList
  | .bool true => "true".toList
  | .bool false => "false".toList
  | .number value => (toString value).toList
  | .text value => escaped value
  | .array [] => "[]".toList
  | .array (item :: items) =>
      "[\n".toList ++ Text.joinWith ",\n".toList (layoutItems (level + 1) (item :: items)) ++
        ['\n'] ++ indent level ++ [']']
  | .object [] => "\x7b\x7d".toList
  | .object (field :: fields) =>
      "\x7b\n".toList ++ Text.joinWith ",\n".toList (layoutFields (level + 1) (field :: fields)) ++
        ['\n'] ++ indent level ++ ['\x7d']

def layoutItems (level : Nat) : List JsonValue → List Text
  | [] => []
  | item :: items => (indent level ++ layoutAt level item) :: layoutItems level items

def layoutFields (level : Nat) : List (Text × JsonValue) → List Text
  | [] => []
  | (name, value) :: fields =>
      (indent level ++ escaped name ++ ": ".toList ++ layoutAt level value)
        :: layoutFields level fields

end

def layout (value : JsonValue) : Text :=
  value.layoutAt 0

def ofFields (fields : List (String × JsonValue)) : JsonValue :=
  .object (fields.map fun (name, value) => (name.toList, value))

def ofTexts (texts : List Text) : JsonValue :=
  .array (texts.map .text)

end JsonValue

end NameMigration
