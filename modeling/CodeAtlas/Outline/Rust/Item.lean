import CodeAtlas.Outline.Rust.Piece

/-! The outline of Rust sources.

Items stand at the front of a file or of braces, and after a semicolon or other
braces; expressions are searched for blocks with items in them. Attributes and the
arguments of macros are passed over. The members of an implementation belong to
the type it is for, and their bodies are not searched. -/
namespace CodeAtlas.Outline.Rust

/-! ### Parts of items -/

/-- Without attributes at the front. -/
def dropAttributes : List Tree → List Tree
  | [] => []
  | [t] => [t]
  | a :: b :: rest =>
    if a.isMark "#" && b.isGroup .bracket then dropAttributes rest
    else
      match b, rest with
      | .leaf bang, c :: more =>
        if a.isMark "#" && bang.text == "!" && c.isGroup .bracket then dropAttributes more else a :: b :: rest
      | _, _ => a :: b :: rest

/-- The visibility at the front, and what follows it. -/
def visibility (ts : List Tree) : List Tree × List Tree :=
  match ts with
  | v :: g :: rest =>
    if !v.isWord "pub" then ([], ts)
    else
      match g.inner? .paren with
      | some (place :: _) =>
        if place.isWordOf ["crate", "self", "super", "in"] then ([v, g], rest) else ([v], g :: rest)
      | _ => ([v], g :: rest)
  | _ => ([], ts)

/-- A visibility as a modifier: the text without blanks. -/
def visibilityModifiers : List Tree → List String
  | [] => []
  | v => [String.ofList ((Tree.textOfAll v).toList.filter (· != ' '))]

/-- Without what may stand before a function: words, and the name of an interface
to other code. -/
def dropQualifiers (ts : List Tree) : List Tree :=
  ts.dropWhile fun t =>
    t.isWordOf ["async", "default", "const", "unsafe", "safe", "extern"] || t.isText

/-- Cut at commas; the last piece is left out when it is empty. -/
def pieces (nested : Bool) (ts : List Tree) : List (List Tree) :=
  let (open_, done, _) := ts.foldl (fun (current, done, depth) t =>
    if depth == 0 && t.isMark "," then ([], current.reverse :: done, 0)
    else (t :: current, done, if nested then angleDepth depth t else 0)) (([] : List Tree), [], 0)
  ((open_.reverse :: done).reverse).filter (! ·.isEmpty)

def isEnd (t : Tree) : Bool := t.isMark ";" || t.isGroup .brace

/-- Cut at the first semicolon. -/
def cutAtEnd? (ts : List Tree) : Option (List Tree × Tree × List Tree) :=
  match ts.span (! ·.isMark ";") with
  | (value, stop :: rest) => some (value, stop, rest)
  | (_, []) => none

/-- The text of the type that an implementation is for, without its arguments. -/
def container (header : List Tree) : String :=
  let target := match cutAt? (·.isWord "where") 0 header with
    | some (before, _, _) => before
    | none => header
  let type := match forType? target with
    | some type => type
    | none => target
  Text.trim (String.ofList ((Tree.textOfAll type).toList.takeWhile (· != '<')))
where
  /-- What follows the word that stands between a trait and a type. -/
  forType? (ts : List Tree) : Option (List Tree) :=
    match cutAt? (·.isWord "for") 0 ts with
    | some (_, _, type) =>
      match type with
      | t :: _ => if t.isMark "<" then none else some type
      | [] => none
    | none => none

/-- After the word that begins an implementation: without its parameters. -/
def dropParameters (ts : List Tree) : List Tree :=
  match ts with
  | t :: rest => if t.isMark "<" then ((angles? 0 rest).map (·.2)).getD ts else ts
  | [] => []

/-- Words that begin or end no operand, so that a mark after them negates. -/
def operatorWords : List String := ["if", "while", "match", "return", "in", "else", "break"]

/-- What follows the call of a macro, if one stands here. -/
def afterMacro? : List Tree → Option (List Tree)
  | name :: bang :: rest =>
    if name.isAnyWord && !name.isWordOf operatorWords && bang.isMark "!" then
      match rest with
      | .group .. :: more => some more
      | defined :: .group .. :: more => if defined.isAnyWord then some more else none
      | _ => none
    else none
  | _ => none

/-- The kinds a function may be inside of to be a method. -/
def holdsMethods : Option SymbolKind → Bool
  | some .class | some .trait | some .interface | some .struct => true
  | _ => false

def isMember (s : RawSymbol) : Bool :=
  [SymbolKind.method, .constant, .typeAlias].any fun kind => s.kind == .name kind.name

/-! ### Items -/

mutual

/-- The entries of some trees inside of a symbol of a kind; `atItem` tells whether
an item may stand at the front. -/
def entries : Nat → Option SymbolKind → Bool → List Tree → List RawSymbol
  | 0, _, _, _ => []
  | _, _, _, [] => []
  | fuel + 1, parent, atItem, t :: rest =>
    let ts := dropAttributes (t :: rest)
    if ts.length ≤ rest.length then entries fuel parent atItem ts
    else
      match afterMacro? ts with
      | some more => entries fuel parent true more
      | none =>
        match if atItem then item? fuel parent ts else none with
        | some (found, more) => found ++ entries fuel parent true more
        | none =>
          match t with
          | .leaf _ => entries fuel parent (t.isMark ";") rest
          | .group d _ inner _ =>
            entries fuel parent (d == .brace) inner ++ entries fuel parent (d == .brace) rest

/-- The item at the front: its entries and what follows it. -/
def item? : Nat → Option SymbolKind → List Tree → Option (List RawSymbol × List Tree)
  | 0, _, _ => none
  | _, _, [] => none
  | fuel + 1, parent, start :: more =>
    let (v, core) := visibility (start :: more)
    let modifiers := visibilityModifiers v
    let plain := match core with
      | t :: rest => if t.isWord "unsafe" then rest else core
      | [] => core
    let close (kind : SymbolKind) (name stop : Tree) (children : List RawSymbol) : RawSymbol :=
      entry kind name start stop modifiers children
    match dropQualifiers core, plain with
    | keyword :: name :: rest, word :: title :: body =>
      if keyword.isWord "fn" && name.isAnyWord then do
        let (header, stop, rest) ← cutAt? isEnd 0 rest
        let kind := if stop.isMark ";" || holdsMethods parent then SymbolKind.method else .function
        return ([close kind name stop (entries fuel kind false (header ++ [stop]))], rest)
      else if word.isWord "impl" then do
        let (header, stop, rest) ← cutAt? isEnd 0 (dropParameters (title :: body))
        let owner := container header
        let members := (entries fuel (some .class) true ((stop.inner? .brace).getD [])).filter isMember
        return (members.map fun m => { m with containerName := some owner, children := [] }, rest)
      else if !title.isAnyWord then none
      else if word.isWord "struct" then do
        let (header, stop, rest) ← cutAt? isEnd 0 body
        let children := entries fuel (some .struct) false header ++ fields fuel ((stop.inner? .brace).getD [])
        return ([close .struct title stop children], rest)
      else if word.isWord "union" then do
        let (_, stop, rest) ← cutAt? isEnd 0 body
        return (fields fuel (← stop.inner? .brace), rest)
      else if word.isWord "enum" then do
        let (header, stop, rest) ← cutAt? isEnd 0 body
        let children := entries fuel (some .enum) false header ++ variants fuel (← stop.inner? .brace)
        return ([close .enum title stop children], rest)
      else if word.isWord "trait" then do
        let (header, stop, rest) ← cutAt? isEnd 0 body
        return ([close .trait title stop (entries fuel (some .trait) false (header ++ [stop]))], rest)
      else if word.isWord "mod" then do
        let (_, stop, rest) ← cutAt? isEnd 0 body
        return ([close .module title stop (entries fuel (some .module) false [stop])], rest)
      else valueItem? fuel close word title body
    | _, _ => none

/-- A constant, a static variable or an alias of a type, from its first word on. -/
def valueItem? (fuel : Nat) (close : SymbolKind → Tree → Tree → List RawSymbol → RawSymbol)
    (word title : Tree) (body : List Tree) : Option (List RawSymbol × List Tree) :=
  match fuel with
  | 0 => none
  | fuel + 1 => do
    let (title, body) ← match body with
      | t :: rest =>
        if word.isWord "static" && title.isWordOf ["mut", "ref"] then
          if t.isAnyWord then some (t, rest) else none
        else some (title, body)
      | [] => none
    let (value, stop, rest) ← cutAtEnd? body
    let found (kind : SymbolKind) : List RawSymbol × List Tree :=
      ([close kind title stop (entries fuel (some kind) false value)], rest)
    let typed := (body.head?.map (·.isMark ":")).getD false
    if word.isWord "const" && typed then some (found .constant)
    else if word.isWord "static" && typed then some (found .variable)
    else if word.isWord "type" && (cutAt? (·.isMark "=") 0 value).isSome then some (found .typeAlias)
    else none

/-- The fields between the braces of a structure. -/
def fields : Nat → List Tree → List RawSymbol
  | 0, _ => []
  | fuel + 1, ts => (pieces true ts).flatMap fun piece =>
    match dropAttributes piece with
    | [] => []
    | start :: more =>
      let (v, core) := visibility (start :: more)
      match core with
      | name :: colon :: type =>
        if name.isAnyWord && colon.isMark ":" then
          [entry .field name start ((type.getLast?).getD colon) (visibilityModifiers v)
            (entries fuel (some .field) false type)]
        else []
      | _ => []

/-- The variants between the braces of an enumeration. -/
def variants : Nat → List Tree → List RawSymbol
  | 0, _ => []
  | fuel + 1, ts => (pieces false ts).flatMap fun piece =>
    match dropAttributes piece with
    | [] => []
    | start :: more =>
      let (v, core) := visibility (start :: more)
      match core with
      | name :: body =>
        let children := match body with
          | g :: rest =>
            match g.inner? .brace with
            | some inner => fields fuel inner ++ entries fuel (some .enumMember) false rest
            | none => entries fuel (some .enumMember) false body
          | [] => []
        if name.isAnyWord then
          [entry .enumMember name start ((body.getLast?).getD name) (visibilityModifiers v) children]
        else []
      | [] => []

end

def outline (text : String) : List RawSymbol :=
  let trees := scanner.trees text
  entries (4 * text.length + 8) none true trees

end CodeAtlas.Outline.Rust
