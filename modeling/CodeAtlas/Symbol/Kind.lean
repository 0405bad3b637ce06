import CodeAtlas.Json.Wire
import CodeAtlas.Text.Chars

/-! Kinds of symbols.

A kind has a name, which is what files and messages carry, and some kinds have a
number in the language server protocol. -/
namespace CodeAtlas
open Json

inductive SymbolKind where
  | file | module | «namespace» | package
  | «class» | struct | enum | interface | trait | typeAlias | typeParameter
  | function | method | constructor
  | field | property | variable | constant | enumMember
deriving DecidableEq, Inhabited, Repr

namespace SymbolKind

def all : List SymbolKind :=
  [file, module, «namespace», package, «class», struct, enum, interface, trait, typeAlias,
    typeParameter, function, method, constructor, field, property, «variable», constant, enumMember]

def name : SymbolKind → String
  | file => "file"
  | module => "module"
  | «namespace» => "namespace"
  | package => "package"
  | «class» => "class"
  | struct => "struct"
  | enum => "enum"
  | interface => "interface"
  | trait => "trait"
  | typeAlias => "typeAlias"
  | typeParameter => "typeParameter"
  | function => "function"
  | method => "method"
  | constructor => "constructor"
  | field => "field"
  | property => "property"
  | «variable» => "variable"
  | constant => "constant"
  | enumMember => "enumMember"

/-- The kind with this number in the language server protocol. -/
def ofCode? : Nat → Option SymbolKind
  | 1 => some file
  | 2 => some module
  | 3 => some «namespace»
  | 4 => some package
  | 5 => some «class»
  | 6 => some method
  | 7 => some property
  | 8 => some field
  | 9 => some constructor
  | 10 => some enum
  | 11 => some interface
  | 12 => some function
  | 13 => some «variable»
  | 14 => some constant
  | 22 => some enumMember
  | 23 => some struct
  | 26 => some typeParameter
  | _ => none

/-- Kinds whose symbols usually hold other symbols. -/
def isContainer : SymbolKind → Bool
  | file | module | «namespace» | package | «class» | struct | enum | interface | trait => true
  | _ => false

/-- A whole number of 64 bits in decimal digits, with or without a plus sign. -/
def code? (text : String) : Option Nat :=
  let digits :=
    match text.toList with
    | '+' :: rest => rest
    | cs => cs
  if digits.isEmpty || !digits.all Text.isAsciiDigit then none
  else
    let n := digits.foldl (fun n c => n * 10 + (c.toNat - 48)) 0
    if n < UInt64.size then some n else none

/-- The kind with this name or short form, in small letters. -/
def ofName? : String → Option SymbolKind
  | "file" => some file
  | "module" | "mod" => some module
  | "namespace" => some «namespace»
  | "package" => some package
  | "class" => some «class»
  | "struct" => some struct
  | "enum" => some enum
  | "interface" => some interface
  | "trait" => some trait
  | "typealias" | "type" => some typeAlias
  | "typeparameter" => some typeParameter
  | "function" | "fn" => some function
  | "method" => some method
  | "constructor" => some constructor
  | "field" => some field
  | "property" => some property
  | "variable" | "var" => some «variable»
  | "constant" | "const" => some constant
  | "enummember" => some enumMember
  | _ => none

/-- Read a protocol number, or a name whatever its ASCII case. -/
def parse (text : String) : Except String SymbolKind :=
  let lower := Text.asciiLowercase (Text.trim text)
  match code? lower with
  | some n =>
    match ofCode? n with
    | some kind => .ok kind
    | none => .error s!"unknown symbol kind code {n}"
  | none =>
    match ofName? lower with
    | some kind => .ok kind
    | none => .error ("unknown symbol kind '" ++ lower ++ "'")

end SymbolKind

instance : Wire SymbolKind := ⟨fun k => .str k.name, named? SymbolKind.all SymbolKind.name⟩

end CodeAtlas
