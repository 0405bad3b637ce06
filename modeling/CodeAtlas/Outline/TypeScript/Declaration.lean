import CodeAtlas.Outline.TypeScript.Piece

/-! The outline of TypeScript and JavaScript sources.

Statements, expressions and types are read one after the other: each reading takes
trees from the front and leaves the rest, with the entries found on the way.
Declarations are entries, and so are methods of object literals, signatures of
methods in types, and variables whose value is a function. Anything else is only
searched. A statement without a semicolon ends before a new line that cannot go on
with it. -/
namespace CodeAtlas.Outline.TypeScript

/-- The entries found, and what is left to read. -/
abbrev Reading := List RawSymbol × List Tree

def Reading.after (found : List RawSymbol) (r : Reading) : Reading := (found ++ r.1, r.2)

/-- The first reading, if there is one, and the second otherwise. -/
def Reading.first (r : Option Reading) (otherwise : Unit → Reading) : Reading :=
  match r with
  | some r => r
  | none => otherwise ()

/-! ### Heads -/

def headIs (p : Tree → Bool) (ts : List Tree) : Bool := (ts.head?.map p).getD false

def isPlainWord (t : Tree) : Bool := t.isAnyWord

/-- A tree that may name a member: a word, a string, a number or a computed name. -/
def isMemberName : Tree → Bool
  | .leaf t => t.kind == .word || t.kind == .text || t.kind == .number
  | .group d _ _ _ => d == .bracket

/-- Words that may stand before the name of a member. -/
def memberWords : List String :=
  ["public", "private", "protected", "static", "override", "readonly", "abstract", "declare", "accessor",
    "async", "get", "set"]

/-- The modifiers of a member, and what follows them. A word is a modifier only
before a name or another modifier. -/
def memberModifiers : List Tree → List Tree × List Tree
  | t :: next :: rest =>
    if t.isMark "*" || (t.isWordOf memberWords && (isMemberName next || next.isMark "*")) then
      let (found, more) := memberModifiers (next :: rest)
      (t :: found, more)
    else ([], t :: next :: rest)
  | ts => ([], ts)

/-- The modifiers that are kept in an entry. -/
def keptModifiers (ts : List Tree) : List String :=
  (ts.filter (·.isWordOf ["public", "private", "protected", "static", "abstract"])).map Tree.text

/-- A key in brackets that stands for any name, as against a computed name. -/
def isIndexSignature (t : Tree) : Bool :=
  match t.inner? .bracket with
  | some (name :: next :: _) => isPlainWord name && (next.isMark ":" || next.isWord "in")
  | _ => false

/-- A new line ends a statement before this tree, if an operand precedes it. -/
def beginsStatement (t : Tree) : Bool :=
  t.fresh &&
    match t with
    | .leaf tok =>
      match tok.kind with
      | .word => !(["in", "instanceof", "of", "as", "satisfies"].contains tok.text)
      | .number => true
      | .text => !Text.hasStart tok.text "\x60"
      | .mark => ["@", "++", "--", "!", "~"].contains tok.text
      | _ => false
    | .group d _ _ _ => d == .brace

/-- The arguments of a generic call, after the angle bracket: what follows them
shows that they are no comparison. -/
def typeArguments? (ts : List Tree) : Option (List Tree × List Tree) :=
  match angles? 0 ts with
  | none => none
  | some (inner, rest) =>
    let plain : Tree → Bool
      | .leaf t => t.kind != .mark || [",", ".", "|", "&", "=>", "<", ">"].contains t.text
      | .group .. => true
    let ends := match rest with
      | [] => true
      | t :: _ => t.isGroup .paren || t.isText || t.isMarkOf [";", ",", ".", "?."] || t.fresh
    if inner.all plain && ends then some (inner, rest) else none

/-- What follows the decorators at the front, and the groups in them. -/
def dropDecorators : Nat → List Tree → List Tree × List Tree
  | 0, ts => ([], ts)
  | fuel + 1, ts =>
    match ts with
    | sign :: rest =>
      if !sign.isMark "@" then ([], ts)
      else
        let named := rest.drop 1
        let path := named.takeWhile fun t => (t.isMark "." || isPlainWord t) && !t.fresh
        let dotted := if headIs (·.isMark ".") path then dottedLength path else 0
        let after := named.drop dotted
        let called := if headIs (·.isGroup .paren) after then after.take 1 else []
        let (found, more) := dropDecorators fuel (after.drop called.length)
        (rest.take 1 ++ called ++ found, more)
    | [] => ([], [])
where
  /-- The length of a path of names with dots before them. -/
  dottedLength : List Tree → Nat
    | dot :: name :: rest => if dot.isMark "." && isPlainWord name then 2 + dottedLength rest else 0
    | _ => 0

/-- The last of the trees that were read. -/
def lastRead (fallback : Tree) (ts rest : List Tree) : Tree :=
  ((ts.take (ts.length - rest.length)).getLast?).getD fallback

/-- Words that begin an operand rather than being one. -/
def isOperatorWord (t : Tree) : Bool := t.isWordOf operatorWords

/-! ### Readings -/

mutual

/-- All statements of a block. -/
def statements : Nat → List Tree → List RawSymbol
  | 0, _ => []
  | _, [] => []
  | fuel + 1, t :: rest =>
    let (found, more) := statement fuel false [] (t :: rest)
    found ++ statements fuel (if rest.length < more.length then rest else more)

/-- A statement, which may be exported, after decorators that may belong to it. -/
def statement : Nat → Bool → List Tree → List Tree → Reading
  | 0, _, _, ts => ([], ts.drop 1)
  | _, _, _, [] => ([], [])
  | fuel + 1, exported, decorated, t :: rest =>
    let plain := fun (_ : Unit) => expression fuel false false 0 (t :: rest)
    match t with
    | .group .brace _ inner _ => (statements fuel inner, rest)
    | .group .. => plain ()
    | .leaf tok =>
      match tok.kind, tok.text with
      | .mark, ";" => ([], rest)
      | .mark, "@" =>
        let (parts, more) := dropDecorators fuel (t :: rest)
        if headIs (·.isWordOf ["class", "abstract"]) more then statement fuel exported (t :: parts) more
        else Reading.after (inside fuel parts) (statement fuel exported [] more)
      | .word, word =>
        if headIs (·.isMark ":") rest && word != "default" then ([], rest.drop 1)
        else
          match word with
          | "export" => exportStatement fuel rest
          | "import" => importStatement fuel (t :: rest)
          | "declare" => if headIs isPlainWord rest then statement fuel exported [] rest else plain ()
          | "abstract" | "class" => Reading.first (classDeclaration? fuel exported decorated (t :: rest)) plain
          | "async" | "function" => Reading.first (functionDeclaration? fuel exported (t :: rest)) plain
          | "interface" | "enum" | "type" | "namespace" | "module" | "global" =>
            Reading.first (typeDeclaration? fuel exported t (t :: rest)) plain
          | "const" | "let" | "var" | "using" =>
            if headIs (·.isWord "enum") rest then Reading.first (typeDeclaration? fuel exported t rest) plain
            else if headIs (fun n => isPlainWord n || n.isGroup .brace || n.isGroup .bracket) rest then
              declarators fuel exported rest
            else plain ()
          | "for" =>
            match rest.dropWhile (·.isWord "await") with
            | .group .paren _ inner _ :: more => (statements fuel inner, more)
            | _ => plain ()
          | "if" | "while" | "switch" | "with" | "catch" =>
            match rest with
            | .group .paren _ inner _ :: more => (inside fuel inner, more)
            | _ => ([], rest)
          | "else" | "do" | "try" | "finally" => ([], rest)
          | "return" | "break" | "continue" | "throw" => if headIs (·.fresh) rest then ([], rest) else plain ()
          | "case" => let (found, more) := plain (); (found, if headIs (·.isMark ":") more then more.drop 1 else more)
          | "default" => ([], rest.drop 1)
          | _ => plain ()
      | _, _ => plain ()

/-- What follows the word that exports. -/
def exportStatement : Nat → List Tree → Reading
  | 0, ts => ([], ts)
  | _, [] => ([], [])
  | fuel + 1, t :: rest =>
    let value (ts : List Tree) : Reading :=
      match ts with
      | .group .brace _ inner _ :: more =>
        if more.isEmpty || headIs (fun next => next.isMark ";" || next.fresh) more then
          (properties fuel true inner, more)
        else expression fuel false false 0 ts
      | _ => expression fuel false false 0 ts
    if t.isMark "=" then value rest
    else if t.isWord "default" then
      if headIs (fun next => next.isWordOf ["function", "async", "class", "abstract", "interface"] || next.isMark "@") rest
      then statement fuel true [] rest
      else value rest
    else if t.isGroup .brace || t.isMark "*" || (t.isWord "type" && headIs (fun n => n.isGroup .brace || n.isMark "*") rest)
    then fromClause (t :: rest)
    else if t.isWord "import" then statement fuel false [] (t :: rest)
    else if t.isWord "as" && headIs (·.isWord "namespace") rest then ([], rest.drop 2)
    else statement fuel true [] (t :: rest)
where
  /-- Names in braces or a star, and the module they are from. -/
  fromClause (ts : List Tree) : Reading :=
    let rest := (ts.dropWhile fun t => t.isWord "type").drop 1
    if headIs (fun t => t.isWordOf ["from", "as"]) rest then
      let more := rest.dropWhile fun t => !t.isText && !t.isMark ";"
      ([], if headIs Tree.isText more then more.drop 1 else more)
    else ([], rest)

/-- A declaration of imports; a call or a property is an expression. -/
def importStatement : Nat → List Tree → Reading
  | 0, ts => ([], ts.drop 1)
  | fuel + 1, ts =>
    match ts with
    | _ :: next :: rest =>
      if next.isGroup .paren || next.isMark "." then expression fuel false false 0 ts
      else
        let more := (next :: rest).dropWhile fun t => !t.isText && !t.isMark ";" && !t.isMark "="
        if headIs (·.isMark "=") more then expression fuel false false 0 (more.drop 1)
        else if headIs Tree.isText more then ([], more.drop 1)
        else ([], if more.isEmpty then next :: rest else more)
    | ts => ([], ts.drop 1)

/-- The declaration of a class with a name, which begins with its decorators. -/
def classDeclaration? : Nat → Bool → List Tree → List Tree → Option Reading
  | 0, _, _, _ => none
  | fuel + 1, exported, decorated, ts => do
    let first ← ts.head?
    let isAbstract := first.isWord "abstract"
    let ts := if isAbstract then ts.drop 1 else ts
    let (name, rest) ← match ts with
      | word :: name :: rest =>
        if word.isWord "class" && isPlainWord name && !name.isWordOf ["extends", "implements"] then some (name, rest)
        else none
      | _ => none
    let (header, body, rest) ← cutAt? (·.isGroup .brace) 0 rest
    let children := inside fuel (decorated.drop 1) ++ inside fuel header ++
      classMembers fuel ((body.inner? .brace).getD [])
    let modifiers := (if exported then ["export"] else []) ++ (if isAbstract then ["abstract", "abstract"] else [])
    return ([entry .class name (decorated.headD first) body modifiers children], rest)

/-- The declaration of a function with a name. One that generates is only searched,
and so is a signature without a body. -/
def functionDeclaration? : Nat → Bool → List Tree → Option Reading
  | 0, _, _ => none
  | fuel + 1, exported, ts => do
    let first ← ts.head?
    let ts := if first.isWord "async" then ts.drop 1 else ts
    let keyword ← ts.head?
    if !keyword.isWord "function" || (first.isWord "async" && keyword.fresh) then none
    else
      let rest := ts.drop 1
      let generates := headIs (·.isMark "*") rest
      let rest := if generates then rest.drop 1 else rest
      let name ← rest.head?
      if !isPlainWord name then none
      else
        let (found, more) := signature fuel (rest.drop 1)
        match more with
        | .group .brace opening inner closing :: more =>
          let children := found ++ statements fuel inner
          let stop := Tree.group .brace opening inner closing
          if generates then return (children, more)
          else return ([entry .function name first stop (if exported then ["export"] else []) children], more)
        | more => return (found, more)

/-- The declaration of an interface, an enumeration, an alias or a namespace. -/
def typeDeclaration? : Nat → Bool → Tree → List Tree → Option Reading
  | 0, _, _, _ => none
  | fuel + 1, exported, first, ts => do
    let word ← ts.head?
    let name ← (ts.drop 1).head?
    let rest := ts.drop 2
    let modifiers := if exported then ["export"] else []
    if word.isWordOf ["namespace", "module", "global"] then
      if name.isGroup .brace then return (statements fuel ((name.inner? .brace).getD []), rest)
      else if !(isPlainWord name || name.isText) || name.fresh then none
      else
        let rest := rest.dropWhile fun t => t.isMark "." || isPlainWord t
        let (body, rest) ← match rest with
          | body :: rest => if body.isGroup .brace then some (body, rest) else none
          | [] => none
        return (statements fuel ((body.inner? .brace).getD []), rest)
    else if !isPlainWord name || name.fresh then none
    else if word.isWord "type" then
      let (found, rest) ← match rest with
        | t :: more =>
          if t.isMark "<" then (angles? 0 more).map fun (inner, more) => (types fuel inner, more) else some ([], rest)
        | [] => none
      if !headIs (·.isMark "=") rest then none
      else
        let (value, more) := type fuel false 0 0 (rest.drop 1)
        let stop := lastRead name rest more
        let (stop, more) := match more with
          | t :: after => if t.isMark ";" then (t, after) else (stop, more)
          | [] => (stop, more)
        return ([entry .typeAlias name first stop modifiers (found ++ value)], more)
    else
      let (header, body, rest) ← cutAt? (·.isGroup .brace) 0 rest
      let inner := (body.inner? .brace).getD []
      if word.isWord "enum" then
        return ([entry .enum name first body modifiers (properties fuel false inner)], rest)
      else return ([entry .interface name first body modifiers (inside fuel header ++ typeMembers fuel inner)], rest)

/-- Variables, each with a type and a value or without. -/
def declarators : Nat → Bool → List Tree → Reading
  | 0, _, ts => ([], ts.drop 1)
  | _, _, [] => ([], [])
  | fuel + 1, exported, name :: rest =>
    let pattern := match name with
      | .group .brace _ inner _ => properties fuel false inner
      | .group _ _ inner _ => inside fuel inner
      | .leaf _ => []
    let rest := if headIs (·.isMark "!") rest then rest.drop 1 else rest
    let (typed, rest) := if headIs (·.isMark ":") rest then type fuel false 0 0 (rest.drop 1) else ([], rest)
    let found := pattern ++ typed
    let (found, rest) :=
      if headIs (·.isMark "=") rest then
        let value := rest.drop 1
        let (inner, more) := expression fuel true false 0 value
        let taken := value.take (value.length - more.length)
        if isFunction fuel taken then
          ([entry .function name name (lastRead name value more) (if exported then ["export"] else [])
            (found ++ inner)], more)
        else (found ++ inner, more)
      else (found, rest)
    if headIs (·.isMark ",") rest then Reading.after found (declarators fuel exported (rest.drop 1))
    else (found, rest)

/-- Is the whole of a value a function? -/
def isFunction : Nat → List Tree → Bool
  | 0, _ => false
  | _, [] => false
  | fuel + 1, t :: rest =>
    if t.isWord "async" && !rest.isEmpty && !headIs (·.isMark "=>") rest then isFunction fuel rest
    else if t.isWord "function" then
      let rest := if headIs isPlainWord rest then rest.drop 1 else rest
      match (signature fuel rest).2 with
      | [body] => body.isGroup .brace
      | _ => false
    else if t.isGroup .paren || t.isMark "<" then headIs (·.isMark "=>") (signature fuel (t :: rest)).2
    else isPlainWord t && headIs (·.isMark "=>") rest

/-- A function as a value, from its first word on. -/
def functionValue : Nat → List Tree → Reading
  | 0, ts => ([], ts.drop 1)
  | fuel + 1, ts =>
    let rest := (ts.drop 1).dropWhile (·.isMark "*")
    let rest := if headIs isPlainWord rest then rest.drop 1 else rest
    let (found, rest) := signature fuel rest
    match rest with
    | .group .brace _ inner _ :: more => (found ++ statements fuel inner, more)
    | rest => (found, rest)

/-- Type parameters, parameters and the type of the result. -/
def signature : Nat → List Tree → Reading
  | 0, ts => ([], ts)
  | fuel + 1, ts =>
    let (generic, ts) := match ts with
      | t :: rest =>
        if t.isMark "<" then
          match angles? 0 rest with
          | some (inner, more) => (types fuel inner, more)
          | none => ([], ts)
        else ([], ts)
      | [] => ([], ts)
    match ts with
    | .group .paren _ inner _ :: rest =>
      let found := generic ++ parameters fuel inner
      if headIs (·.isMark ":") rest then Reading.after found (type fuel false 0 0 (rest.drop 1))
      else (found, rest)
    | ts => (generic, ts)

/-- Parameters: patterns, types and default values. -/
def parameters : Nat → List Tree → List RawSymbol
  | 0, _ => []
  | _, [] => []
  | fuel + 1, t :: rest =>
    let (found, more) :=
      if t.isMark ":" then type fuel false 0 0 rest
      else if t.isMark "=" then expression fuel true false 0 rest
      else
        match t with
        | .group .brace _ inner _ => (properties fuel false inner, rest)
        | .group _ _ inner _ => (inside fuel inner, rest)
        | .leaf _ => ([], rest)
    found ++ parameters fuel more

/-- Expressions with anything between them. -/
def inside : Nat → List Tree → List RawSymbol
  | 0, _ => []
  | _, [] => []
  | fuel + 1, t :: rest =>
    let (found, more) := expression fuel false false 0 (t :: rest)
    found ++ inside fuel (if rest.length < more.length then rest else more)

/-- An expression, up to a comma if it is a single one. `operand` tells whether one
has just ended, `pending` counts the colons that belong to conditions. -/
def expression : Nat → Bool → Bool → Nat → List Tree → Reading
  | 0, _, _, _, ts => ([], ts)
  | _, _, _, _, [] => ([], [])
  | fuel + 1, single, operand, pending, t :: rest =>
    let go (operand : Bool) (pending : Nat) (ts : List Tree) : Reading := expression fuel single operand pending ts
    if operand && beginsStatement t then ([], t :: rest)
    else
      match t with
      | .group .paren _ inner _ =>
        let arrow := headIs (·.isMark "=>") rest || (pending == 0 && headIs (·.isMark ":") rest)
        let read := if !operand && arrow then signature fuel (t :: rest) else ([], [])
        if headIs (·.isMark "=>") read.2 then Reading.after read.1 (go true pending read.2)
        else Reading.after (inside fuel inner) (go true pending rest)
      | .group .brace _ inner _ =>
        if operand then ([], t :: rest)
        else Reading.after (properties fuel false inner) (go true pending rest)
      | .group _ _ inner _ => Reading.after (inside fuel inner) (go true pending rest)
      | .leaf tok =>
        match tok.kind, tok.text with
        | .mark, ";" => ([], t :: rest)
        | .mark, "," => if single then ([], t :: rest) else go false pending rest
        | .mark, ":" => if pending == 0 then ([], t :: rest) else go false (pending - 1) rest
        | .mark, "?" => go false (pending + 1) rest
        | .mark, "=>" =>
          match rest with
          | .group .brace _ inner _ :: more =>
            let found := statements fuel inner
            if headIs (·.isMarkOf [",", ":"]) more then Reading.after found (go true pending more) else (found, more)
          | _ => go false pending rest
        | .mark, "." | .mark, "?." => go true pending (if headIs isPlainWord rest then rest.drop 1 else rest)
        | .mark, "++" | .mark, "--" | .mark, "!" => go operand pending rest
        | .mark, "<" =>
          match if operand then typeArguments? rest else angles? 0 rest with
          | some (inner, more) => Reading.after (types fuel inner) (go operand pending more)
          | none => go false pending rest
        | .mark, _ => go false pending rest
        | .word, word =>
          if operand then
            match word with
            | "in" | "instanceof" | "of" => go false pending rest
            | "as" | "satisfies" =>
              let (found, more) := type fuel false 0 0 rest
              Reading.after found (go true pending more)
            | _ => go true pending rest
          else
            match word with
            | "function" =>
              let (found, more) := functionValue fuel (t :: rest)
              Reading.after found (go true pending more)
            | "class" =>
              match cutAt? (·.isGroup .brace) 0 rest with
              | some (header, body, more) =>
                Reading.after (inside fuel header ++ classMembers fuel ((body.inner? .brace).getD []))
                  (go true pending more)
              | none => go true pending rest
            | "async" => go (!(isFunctionHead fuel rest)) pending rest
            | _ => go (!isOperatorWord t) pending rest
        | _, _ => go true pending rest

/-- Does a function follow the word that makes it wait? -/
def isFunctionHead : Nat → List Tree → Bool
  | 0, _ => false
  | _, [] => false
  | fuel + 1, t :: rest =>
    !t.fresh &&
      (t.isWord "function" || (isPlainWord t && headIs (·.isMark "=>") rest) ||
        ((t.isGroup .paren || t.isMark "<") && headIs (·.isMark "=>") (signature fuel (t :: rest)).2))

/-- Types with anything between them. -/
def types : Nat → List Tree → List RawSymbol
  | 0, _ => []
  | _, [] => []
  | fuel + 1, t :: rest =>
    let (found, more) := type fuel false 0 0 (t :: rest)
    found ++ types fuel (if rest.length < more.length then rest else more)

/-- A type. `operand` tells whether an operand has just ended, `bounds` counts the
bounds that may turn into conditions, `pending` the colons that belong to
conditions. -/
def type : Nat → Bool → Nat → Nat → List Tree → Reading
  | 0, _, _, _, ts => ([], ts)
  | _, _, _, _, [] => ([], [])
  | fuel + 1, operand, bounds, pending, t :: rest =>
    let go (operand : Bool) (bounds pending : Nat) (ts : List Tree) : Reading :=
      type fuel operand bounds pending ts
    let stop : Reading := ([], t :: rest)
    match t with
    | .group .paren _ inner _ =>
      if operand then stop
      else if headIs (·.isMark "=>") rest then
        Reading.after (parameters fuel inner) (go false bounds pending (rest.drop 1))
      else Reading.after (types fuel inner) (go true bounds pending rest)
    | .group .bracket _ inner _ =>
      if operand && t.fresh then stop else Reading.after (types fuel inner) (go true bounds pending rest)
    | .group .brace _ inner _ =>
      if operand then stop else Reading.after (typeMembers fuel inner) (go true bounds pending rest)
    | .group .. => stop
    | .leaf tok =>
      match tok.kind, tok.text with
      | .mark, "<" =>
        match angles? 0 rest with
        | some (inner, more) => Reading.after (types fuel inner) (go operand bounds pending more)
        | none => stop
      | .mark, "|" | .mark, "&" => go false bounds pending rest
      | .mark, "." => go false bounds pending rest
      | .mark, "..." | .mark, "-" | .mark, "+" => if operand then stop else go false bounds pending rest
      | .mark, "?" => if operand && 0 < bounds then go false (bounds - 1) (pending + 1) rest else stop
      | .mark, ":" => if operand && 0 < pending then go false bounds (pending - 1) rest else stop
      | .mark, _ => stop
      | .word, word =>
        if operand then
          match word with
          | "extends" => go false (bounds + 1) pending rest
          | "is" => if t.fresh then stop else go false bounds pending rest
          | _ => stop
        else
          match word with
          | "keyof" | "typeof" | "unique" | "readonly" | "infer" | "asserts" | "new" | "abstract" =>
            if headIs continues rest then go false bounds pending rest else go true bounds pending rest
          | "import" => go true bounds pending (if headIs (·.isGroup .paren) rest then rest.drop 1 else rest)
          | _ => go true bounds pending rest
      | _, _ => if operand then stop else go true bounds pending rest
where
  /-- May a tree be the operand of a word before it? -/
  continues (t : Tree) : Bool :=
    match t with
    | .leaf tok => tok.kind != .mark || tok.text == "<"
    | .group .. => true

/-- The members between the braces of a class. -/
def classMembers : Nat → List Tree → List RawSymbol
  | 0, _ => []
  | _, [] => []
  | fuel + 1, t :: rest =>
    if t.isMarkOf [";", ","] then classMembers fuel rest
    else
      let (parts, ts) := dropDecorators fuel (t :: rest)
      let decorated := inside fuel parts
      let (words, member) := memberModifiers ts
      match member with
      | [] => decorated
      | name :: more =>
        if name.isWord "static" && headIs (·.isGroup .brace) more then
          decorated ++ blocks fuel more
        else if !isMemberName name then decorated ++ classMembers fuel more
        else if isIndexSignature name then
          let (found, more) := if headIs (·.isMark ":") more then type fuel false 0 0 (more.drop 1) else ([], more)
          decorated ++ found ++ classMembers fuel more
        else
          let first := words.head?.getD name
          let computed := match name with
            | .group _ _ inner _ => inside fuel inner
            | .leaf _ => []
          let marked := if headIs (·.isMarkOf ["?", "!"]) more then more.drop 1 else more
          if headIs (fun n => n.isGroup .paren || n.isMark "<") marked then
            let (found, after) := signature fuel marked
            match after with
            | .group .brace opening inner closing :: after =>
              let kind := if name.isWord "constructor" then SymbolKind.constructor else .method
              let children := computed ++ found ++ statements fuel inner
              decorated ++ [entry kind name first (.group .brace opening inner closing) (keptModifiers words) children]
                ++ classMembers fuel after
            | after =>
              if words.any (·.isWord "abstract") then decorated ++ computed ++ found ++ classMembers fuel after
              else
                decorated ++ [entry .method name first (lastRead name marked after) (keptModifiers words) (computed ++ found)]
                  ++ classMembers fuel after
          else
            let (typed, after) := if headIs (·.isMark ":") marked then type fuel false 0 0 (marked.drop 1) else ([], marked)
            let (value, after) := if headIs (·.isMark "=") after then expression fuel true false 0 (after.drop 1) else ([], after)
            let start := if t.isMark "@" then t else first
            entry .property name start (lastRead name member after) (keptModifiers words)
              (decorated ++ computed ++ typed ++ value) :: classMembers fuel after

/-- A block in a class, and the members after it. -/
def blocks : Nat → List Tree → List RawSymbol
  | 0, _ => []
  | _, [] => []
  | fuel + 1, block :: rest => statements fuel ((block.inner? .brace).getD []) ++ classMembers fuel rest

/-- What stands between the braces of an object; its methods may be exported. -/
def properties : Nat → Bool → List Tree → List RawSymbol
  | 0, _, _ => []
  | _, _, [] => []
  | fuel + 1, exported, t :: rest =>
    let (words, member) := memberModifiers (t :: rest)
    match member with
    | [] => []
    | name :: more =>
      if name.isMark "..." then
        let (found, more) := expression fuel true false 0 more
        found ++ properties fuel exported more
      else if !isMemberName name then properties fuel exported more
      else
        let computed := match name with
          | .group _ _ inner _ => inside fuel inner
          | .leaf _ => []
        if headIs (fun n => n.isGroup .paren || n.isMark "<") more then
          let (found, after) := signature fuel more
          match after with
          | .group .brace opening inner closing :: after =>
            let kind := if name.isWord "constructor" then SymbolKind.constructor else .method
            let modifiers := (if exported then ["export"] else []) ++ keptModifiers words
            entry kind name (words.head?.getD name) (.group .brace opening inner closing) modifiers
              (computed ++ found ++ statements fuel inner) :: properties fuel exported after
          | after => computed ++ found ++ properties fuel exported after
        else if headIs (·.isMarkOf [":", "="]) more then
          let (found, after) := expression fuel true false 0 (more.drop 1)
          computed ++ found ++ properties fuel exported after
        else computed ++ properties fuel exported more

/-- The members between the braces of an interface or of a type of objects. -/
def typeMembers : Nat → List Tree → List RawSymbol
  | 0, _ => []
  | _, [] => []
  | fuel + 1, t :: rest =>
    if t.isMarkOf [";", ",", "-", "+"] then typeMembers fuel rest
    else if t.isGroup .paren || t.isMark "<" || (t.isWord "new" && headIs (fun n => n.isGroup .paren || n.isMark "<") rest)
    then
      let (found, after) := signature fuel (if t.isWord "new" then rest else t :: rest)
      found ++ typeMembers fuel (if rest.length < after.length then rest else after)
    else
      let (words, member) := memberModifiers (t :: rest)
      match member with
      | [] => []
      | name :: more =>
        let computed := match name with
          | .group .bracket _ inner _ => if isIndexSignature name then types fuel inner else inside fuel inner
          | _ => []
        let marked := more.dropWhile fun n => n.isMarkOf ["?", "-", "+"]
        if isMemberName name && headIs (fun n => n.isGroup .paren || n.isMark "<") marked then
          let (found, after) := signature fuel marked
          entry .method name (words.head?.getD name) (lastRead name marked after) (keptModifiers words)
            (computed ++ found) :: typeMembers fuel after
        else if headIs (·.isMark ":") marked then
          let (found, after) := type fuel false 0 0 (marked.drop 1)
          computed ++ found ++ typeMembers fuel after
        else computed ++ typeMembers fuel marked

end

/-- The outline of a text; only some files have markup in them. -/
def outline (hasMarkup : Bool) (text : String) : List RawSymbol :=
  statements (8 * text.length + 16) ((scanner hasMarkup).trees text)

end CodeAtlas.Outline.TypeScript
