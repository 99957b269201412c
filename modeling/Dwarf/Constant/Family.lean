import Dwarf.Constant.Attribute
import Dwarf.Constant.Form
import Dwarf.Constant.Line
import Dwarf.Constant.Tag
import Dwarf.Constant.Unit
/-!
# Families of constants

A constant is a code that means something only within its family.  Every family has a table of
names; a code outside the table is unknown and keeps its number.
-/

namespace Dwarf

/-- The enumeration that a code belongs to. -/
inductive Family where
  | attribute
  | form
  | tag
  | standardOpcode
  | extendedOpcode
  | lineContent
  | inlineState
  | unitType
  | language
  deriving DecidableEq, Repr

namespace Family

/-- The short label of a family. -/
def label : Family → String
  | .attribute => "at"
  | .form => "form"
  | .tag => "tag"
  | .standardOpcode => "lns"
  | .extendedOpcode => "lne"
  | .lineContent => "lnct"
  | .inlineState => "inl"
  | .unitType => "ut"
  | .language => "lang"

/-- The words that a user may write for each family. -/
def keywords : List (String × Family) :=
  [("at", .attribute), ("attr", .attribute), ("attribute", .attribute), ("form", .form),
   ("tag", .tag), ("lns", .standardOpcode), ("lne", .extendedOpcode), ("lnct", .lineContent),
   ("inl", .inlineState), ("inline", .inlineState), ("ut", .unitType), ("unit", .unitType),
   ("lang", .language), ("language", .language)]

/-- The family a user means, in any mixture of cases.  Keywords are ASCII letters, and no other
character has one of them as its lower case, so ASCII folding decides. -/
def ofKeyword? (text : String) : Option Family := keywords.lookup text.toLower

/-- The complaint about a text that names no family. -/
def unknownKeyword (text : String) : String :=
  "Unknown name kind: " ++ text ++ ". Use at, form, tag, lns, lne, lnct, inl, ut or lang"

/-- What every name of a family starts with. -/
def stem : Family → String
  | .attribute => "DW_AT_"
  | .form => "DW_FORM_"
  | .tag => "DW_TAG_"
  | .standardOpcode => "DW_LNS_"
  | .extendedOpcode => "DW_LNE_"
  | .lineContent => "DW_LNCT_"
  | .inlineState => "DW_INL_"
  | .unitType => "DW_UT_"
  | .language => "DW_LANG_"

/-- The named codes of a family, with the names less their stem. -/
def table : Family → List (Nat × String)
  | .attribute => Constant.attributes
  | .form => Constant.forms
  | .tag => Constant.tags
  | .standardOpcode => Constant.standardOpcodes
  | .extendedOpcode => Constant.extendedOpcodes
  | .lineContent => Constant.lineContents
  | .inlineState => Constant.inlineStates
  | .unitType => Constant.unitTypes
  | .language => Constant.languages

/-- The name of a code in a family, if it has one. -/
def name? (family : Family) (code : Nat) : Option String :=
  (family.table.lookup code).map (family.stem ++ ·)

end Family

/-- A code of one family. -/
structure Constant (family : Family) where
  /-- The number that stands for the constant in a file. -/
  code : Nat
  deriving DecidableEq, Repr

namespace Constant

/-- The text shown for a code that has no name. -/
def unknownName : String := "<unknown>"

/-- The name of a constant, or the text for unknown ones. -/
def name {family : Family} (constant : Constant family) : String :=
  (family.name? constant.code).getD unknownName

end Constant

/-- An attribute name of an entry. -/
abbrev Attribute := Constant .attribute

/-- An entry tag. -/
abbrev Tag := Constant .tag

/-- A source language. -/
abbrev Language := Constant .language

/-- The type of a unit. -/
abbrev UnitType := Constant .unitType

/-- The meaning of one field of a line table entry. -/
abbrev LineContent := Constant .lineContent

namespace Attribute

@[match_pattern] abbrev entryName : Attribute := ⟨0x03⟩
@[match_pattern] abbrev lineProgram : Attribute := ⟨0x10⟩
@[match_pattern] abbrev lowAddress : Attribute := ⟨0x11⟩
@[match_pattern] abbrev sourceLanguage : Attribute := ⟨0x13⟩
@[match_pattern] abbrev directory : Attribute := ⟨0x1b⟩
@[match_pattern] abbrev producer : Attribute := ⟨0x25⟩
@[match_pattern] abbrev stringOffsetsBase : Attribute := ⟨0x72⟩

end Attribute

namespace UnitType

@[match_pattern] abbrev compile : UnitType := ⟨0x01⟩
@[match_pattern] abbrev type : UnitType := ⟨0x02⟩
@[match_pattern] abbrev skeleton : UnitType := ⟨0x04⟩
@[match_pattern] abbrev splitCompile : UnitType := ⟨0x05⟩
@[match_pattern] abbrev splitType : UnitType := ⟨0x06⟩

end UnitType

namespace LineContent

@[match_pattern] abbrev path : LineContent := ⟨0x1⟩
@[match_pattern] abbrev directoryIndex : LineContent := ⟨0x2⟩
@[match_pattern] abbrev timestamp : LineContent := ⟨0x3⟩
@[match_pattern] abbrev size : LineContent := ⟨0x4⟩
@[match_pattern] abbrev digest : LineContent := ⟨0x5⟩

end LineContent

end Dwarf
