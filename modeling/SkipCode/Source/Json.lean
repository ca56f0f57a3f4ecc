import SkipCode.Source.Program
import SkipCode.Json.Decode

/-!
# Programs as JSON

Reading fills in what may be left out; writing spells every field out.
-/

namespace SkipCode

def Pool.name : Pool → String
  | global => "Global"
  | actor => "Actor"

def Pool.ofJson? (j : Json) : Option Pool :=
  j.word? ([Pool.global, .actor].map fun p => (p.name, p))

def Pool.toJson (p : Pool) : Json := .string p.name

namespace Source

open Json (tagged ofList ofOption)

namespace BinaryOp

def name : BinaryOp → String
  | add => "Add" | sub => "Sub" | mul => "Mul" | div => "Div" | mod => "Mod"
  | eq => "Eq" | ne => "Ne" | lt => "Lt" | le => "Le" | gt => "Gt" | ge => "Ge"
  | and => "And" | or => "Or"

def all : List BinaryOp := [add, sub, mul, div, mod, eq, ne, lt, le, gt, ge, and, or]

def ofJson? (j : Json) : Option BinaryOp := j.word? (all.map fun op => (op.name, op))

def toJson (op : BinaryOp) : Json := .string op.name

end BinaryOp

namespace AssignOp

def name : AssignOp → String
  | set => "Set" | add => "Add" | sub => "Sub" | mul => "Mul" | div => "Div" | mod => "Mod"

def all : List AssignOp := [set, add, sub, mul, div, mod]

def ofJson? (j : Json) : Option AssignOp := j.word? (all.map fun op => (op.name, op))

def toJson (op : AssignOp) : Json := .string op.name

end AssignOp

namespace Span

def ofJson? (j : Json) : Option Span := do
  let fields ← j.fields? ["line", "col"]
  return ⟨← fields.required "line" Json.uint32?, ← fields.required "col" Json.uint32?⟩

def toJson (s : Span) : Json := .object [("line", .ofNat s.line.toNat), ("col", .ofNat s.col.toNat)]

end Span

namespace Expr

/-- Reads an expression nested at most `fuel` deep. -/
def read? : (fuel : Nat) → Json → Option Expr
  | 0, _ => none
  | fuel + 1, j => do
    let expr := read? fuel
    let exprs := Json.list? expr
    match ← j.variant? with
    | ("Number", some x) => number <$> x.number?
    | ("Bool", some b) => bool <$> b.bool?
    | ("Array", some items) => array <$> exprs items
    | ("Var", some name) => var <$> name.string?
    | ("Index", some content) =>
      let fields ← content.fields? ["array", "index"]
      return .index (← fields.required "array" expr) (← fields.required "index" expr)
    | ("Field", some content) =>
      let fields ← content.fields? ["object", "class", "field"]
      return .field (← fields.required "object" expr) (← fields.required "class" Json.string?)
        (← fields.required "field" Json.string?)
    | ("StaticField", some content) =>
      let fields ← content.fields? ["class", "field"]
      return .staticField (← fields.required "class" Json.string?)
        (← fields.required "field" Json.string?)
    | ("ActorVar", some content) =>
      let fields ← content.fields? ["actor", "name"]
      return .actorVar (← fields.required "actor" expr) (← fields.required "name" Json.string?)
    | ("Binary", some content) =>
      let fields ← content.fields? ["op", "lhs", "rhs"]
      return .binary (← fields.required "op" BinaryOp.ofJson?) (← fields.required "lhs" expr)
        (← fields.required "rhs" expr)
    | ("Not", some inner) => not <$> expr inner
    | ("Negate", some inner) => negate <$> expr inner
    | ("Length", some inner) => length <$> expr inner
    | ("New", some content) =>
      let fields ← content.fields? ["class", "constructor", "args"]
      return .new (← fields.required "class" Json.string?)
        (← fields.withDefault "constructor" Json.count? 0) (← fields.withDefault "args" exprs [])
    | ("Call", some content) =>
      let fields ← content.fields? ["class", "method", "object", "args"]
      return .call (← fields.optional "class" Json.string?)
        (← fields.required "method" Json.string?) (← fields.optional "object" expr)
        (← fields.withDefault "args" exprs [])
    | ("This", content) => (Json.noContent content).map fun _ => .this
    | ("CurrentActor", content) => (Json.noContent content).map fun _ => .currentActor
    | _ => none

def ofJson? (j : Json) : Option Expr := read? (j.depth + 1) j

end Expr

mutual

def Expr.toJson : Expr → Json
  | .number x => tagged "Number" (.decimal x)
  | .bool b => tagged "Bool" (.bool b)
  | .array items => tagged "Array" (.array (Expr.toJsons items))
  | .var name => tagged "Var" (.string name)
  | .index items position =>
    tagged "Index" (.object [("array", items.toJson), ("index", position.toJson)])
  | .field object className name =>
    tagged "Field" (.object
      [("object", object.toJson), ("class", .string className), ("field", .string name)])
  | .staticField className name =>
    tagged "StaticField" (.object [("class", .string className), ("field", .string name)])
  | .actorVar actor name =>
    tagged "ActorVar" (.object [("actor", actor.toJson), ("name", .string name)])
  | .binary op lhs rhs =>
    tagged "Binary" (.object [("op", op.toJson), ("lhs", lhs.toJson), ("rhs", rhs.toJson)])
  | .not inner => tagged "Not" inner.toJson
  | .negate inner => tagged "Negate" inner.toJson
  | .length inner => tagged "Length" inner.toJson
  | .new className constructorIndex arguments =>
    tagged "New" (.object
      [("class", .string className), ("constructor", .ofNat constructorIndex),
        ("args", .array (Expr.toJsons arguments))])
  | .call className method object arguments =>
    let receiver := match object with
      | some object => object.toJson
      | none => .null
    tagged "Call" (.object
      [("class", ofOption .string className), ("method", .string method), ("object", receiver),
        ("args", .array (Expr.toJsons arguments))])
  | .this => .string "This"
  | .currentActor => .string "CurrentActor"

def Expr.toJsons : List Expr → List Json
  | [] => []
  | item :: rest => item.toJson :: Expr.toJsons rest

end

namespace Place

def ofJson? (j : Json) : Option Place := do
  match ← j.variant? with
  | ("Var", some name) => var <$> name.string?
  | ("Field", some content) =>
    let fields ← content.fields? ["object", "class", "field"]
    return .field (← fields.required "object" Expr.ofJson?)
      (← fields.required "class" Json.string?) (← fields.required "field" Json.string?)
  | ("StaticField", some content) =>
    let fields ← content.fields? ["class", "field"]
    return .staticField (← fields.required "class" Json.string?)
      (← fields.required "field" Json.string?)
  | ("ActorVar", some content) =>
    let fields ← content.fields? ["actor", "name"]
    return .actorVar (← fields.required "actor" Expr.ofJson?)
      (← fields.required "name" Json.string?)
  | _ => none

end Place

def Place.toJson : Place → Json
  | .var name => tagged "Var" (.string name)
  | .field object className name =>
    tagged "Field" (.object
      [("object", object.toJson), ("class", .string className), ("field", .string name)])
  | .staticField className name =>
    tagged "StaticField" (.object [("class", .string className), ("field", .string name)])
  | .actorVar actor name =>
    tagged "ActorVar" (.object [("actor", actor.toJson), ("name", .string name)])


namespace Stmt

/-- Reads one arm of a conditional, given how its statements are read. -/
def readBranch? (stmt : Json → Option Stmt) (j : Json) : Option Branch := do
  let fields ← j.fields? ["condition", "body"]
  return .mk (← fields.required "condition" Expr.ofJson?)
    (← fields.required "body" (Json.list? stmt))

/-- Reads what a statement does, given how the statements inside it are read. -/
def readKind? (stmt : Json → Option Stmt) (j : Json) : Option StmtKind := do
  let block := Json.list? stmt
  match ← j.variant? with
  | ("Define", some content) =>
    let fields ← content.fields? ["name", "initial", "recursive"]
    return .define (← fields.required "name" Json.string?)
      (← fields.optional "initial" Expr.ofJson?)
      (← fields.withDefault "recursive" Json.bool? false)
  | ("Assign", some content) =>
    let fields ← content.fields? ["target", "index", "op", "value"]
    return .assign (← fields.required "target" Place.ofJson?)
      (← fields.withDefault "index" (Json.list? Expr.ofJson?) [])
      (← fields.withDefault "op" AssignOp.ofJson? .set) (← fields.required "value" Expr.ofJson?)
  | ("If", some content) =>
    let fields ← content.fields? ["branches", "otherwise"]
    return .cond (← fields.required "branches" (Json.list? (readBranch? stmt)))
      (← fields.optional "otherwise" block)
  | ("While", some content) =>
    let fields ← content.fields? ["condition", "body"]
    return .while (← fields.required "condition" Expr.ofJson?) (← fields.required "body" block)
  | ("For", some content) =>
    let fields ← content.fields? ["init", "condition", "step", "body"]
    return .for (← fields.optional "init" stmt) (← fields.required "condition" Expr.ofJson?)
      (← fields.optional "step" stmt) (← fields.required "body" block)
  | ("ForEach", some content) =>
    let fields ← content.fields? ["element", "index", "array", "body"]
    return .forEach (← fields.required "element" Json.string?)
      (← fields.optional "index" Json.string?) (← fields.required "array" Expr.ofJson?)
      (← fields.required "body" block)
  | ("Break", some content) =>
    let fields ← content.fields? ["depth"]
    return .break (← fields.withDefault "depth" Json.uint32? 0)
  | ("Continue", some content) =>
    let fields ← content.fields? ["depth"]
    return .continue (← fields.withDefault "depth" Json.uint32? 0)
  | ("Return", some content) =>
    let fields ← content.fields? ["value"]
    return .return (← fields.optional "value" Expr.ofJson?)
  | ("Delete", some content) =>
    let fields ← content.fields? ["object", "class"]
    return .delete (← fields.required "object" Expr.ofJson?)
      (← fields.required "class" Json.string?)
  | ("Block", some content) => .block <$> block content
  | ("Expr", some content) => .expr <$> Expr.ofJson? content
  | _ => none

/-- Reads a statement nested at most `fuel` deep. -/
def read? : (fuel : Nat) → Json → Option Stmt
  | 0, _ => none
  | fuel + 1, j => do
    let fields ← j.fields? ["kind", "span"]
    return .mk (← fields.required "kind" (readKind? (read? fuel)))
      (← fields.withDefault "span" Span.ofJson? .unknown)

def ofJson? (j : Json) : Option Stmt := read? (j.depth + 1) j

end Stmt

mutual

def Stmt.toJson : Stmt → Json
  | .mk kind span => .object [("kind", kind.toJson), ("span", span.toJson)]

def StmtKind.toJson : StmtKind → Json
  | .define name initial recursive =>
    tagged "Define" (.object
      [("name", .string name), ("initial", ofOption Expr.toJson initial),
        ("recursive", .bool recursive)])
  | .assign target index op value =>
    tagged "Assign" (.object
      [("target", target.toJson), ("index", ofList Expr.toJson index), ("op", op.toJson),
        ("value", value.toJson)])
  | .cond branches otherwise =>
    let otherwise := match otherwise with
      | some body => .array (Stmt.toJsons body)
      | none => .null
    tagged "If" (.object [("branches", .array (Branch.toJsons branches)), ("otherwise", otherwise)])
  | .while condition body =>
    tagged "While" (.object
      [("condition", condition.toJson), ("body", .array (Stmt.toJsons body))])
  | .for start condition step body =>
    let start := match start with
      | some s => s.toJson
      | none => .null
    let step := match step with
      | some s => s.toJson
      | none => .null
    tagged "For" (.object
      [("init", start), ("condition", condition.toJson), ("step", step),
        ("body", .array (Stmt.toJsons body))])
  | .forEach element index array body =>
    tagged "ForEach" (.object
      [("element", .string element), ("index", ofOption .string index),
        ("array", array.toJson), ("body", .array (Stmt.toJsons body))])
  | .break depth => tagged "Break" (.object [("depth", .ofNat depth.toNat)])
  | .continue depth => tagged "Continue" (.object [("depth", .ofNat depth.toNat)])
  | .return value => tagged "Return" (.object [("value", ofOption Expr.toJson value)])
  | .delete object className =>
    tagged "Delete" (.object [("object", object.toJson), ("class", .string className)])
  | .block body => tagged "Block" (.array (Stmt.toJsons body))
  | .expr value => tagged "Expr" value.toJson

def Branch.toJson : Branch → Json
  | .mk condition body =>
    .object [("condition", condition.toJson), ("body", .array (Stmt.toJsons body))]

def Stmt.toJsons : List Stmt → List Json
  | [] => []
  | s :: rest => s.toJson :: Stmt.toJsons rest

def Branch.toJsons : List Branch → List Json
  | [] => []
  | b :: rest => b.toJson :: Branch.toJsons rest

end

namespace FieldDecl

def ofJson? (j : Json) : Option FieldDecl := do
  let fields ← j.fields? ["name", "initial", "is_static"]
  return ⟨← fields.required "name" Json.string?, ← fields.optional "initial" Expr.ofJson?,
    ← fields.withDefault "is_static" Json.bool? false⟩

def toJson (f : FieldDecl) : Json :=
  .object
    [("name", .string f.name), ("initial", ofOption Expr.toJson f.initial),
      ("is_static", .bool f.isStatic)]

end FieldDecl

namespace ConstructorDecl

def ofJson? (j : Json) : Option ConstructorDecl := do
  let fields ← j.fields? ["params", "body"]
  return ⟨← fields.withDefault "params" (Json.list? Json.string?) [],
    ← fields.withDefault "body" (Json.list? Stmt.ofJson?) []⟩

def toJson (c : ConstructorDecl) : Json :=
  .object [("params", ofList .string c.params), ("body", ofList Stmt.toJson c.body)]

end ConstructorDecl

namespace MethodDecl

def ofJson? (j : Json) : Option MethodDecl := do
  let fields ← j.fields? ["name", "params", "body", "recursive", "is_static", "span"]
  return {
    name := ← fields.required "name" Json.string?
    params := ← fields.withDefault "params" (Json.list? Json.string?) []
    body := ← fields.withDefault "body" (Json.list? Stmt.ofJson?) []
    recursive := ← fields.withDefault "recursive" Json.bool? false
    isStatic := ← fields.withDefault "is_static" Json.bool? false
    span := ← fields.withDefault "span" Span.ofJson? .unknown }

def toJson (m : MethodDecl) : Json :=
  .object
    [("name", .string m.name), ("params", ofList .string m.params),
      ("body", ofList Stmt.toJson m.body), ("recursive", .bool m.recursive),
      ("is_static", .bool m.isStatic), ("span", m.span.toJson)]

end MethodDecl

namespace ClassDecl

def ofJson? (j : Json) : Option ClassDecl := do
  let fields ← j.fields? ["name", "extends", "fields", "constructors", "methods", "span"]
  return {
    name := ← fields.required "name" Json.string?
    base := ← fields.optional "extends" Json.string?
    fields := ← fields.withDefault "fields" (Json.list? FieldDecl.ofJson?) []
    constructors := ← fields.withDefault "constructors" (Json.list? ConstructorDecl.ofJson?) []
    methods := ← fields.withDefault "methods" (Json.list? MethodDecl.ofJson?) []
    span := ← fields.withDefault "span" Span.ofJson? .unknown }

def toJson (c : ClassDecl) : Json :=
  .object
    [("name", .string c.name), ("extends", ofOption .string c.base),
      ("fields", ofList FieldDecl.toJson c.fields),
      ("constructors", ofList ConstructorDecl.toJson c.constructors),
      ("methods", ofList MethodDecl.toJson c.methods), ("span", c.span.toJson)]

end ClassDecl

namespace Rule

def ofJson? (j : Json) : Option Rule := do
  let fields ← j.fields? ["name", "pool", "body"]
  return ⟨← fields.required "name" Json.string?, ← fields.withDefault "pool" Pool.ofJson? .global,
    ← fields.required "body" (Json.list? Stmt.ofJson?)⟩

def toJson (r : Rule) : Json :=
  .object
    [("name", .string r.name), ("pool", r.pool.toJson), ("body", ofList Stmt.toJson r.body)]

end Rule

namespace Program

def ofJson? (j : Json) : Option Program := do
  let fields ← j.fields? ["classes", "functions", "rules"]
  return ⟨← fields.withDefault "classes" (Json.list? ClassDecl.ofJson?) [],
    ← fields.withDefault "functions" (Json.list? MethodDecl.ofJson?) [],
    ← fields.withDefault "rules" (Json.list? Rule.ofJson?) []⟩

def toJson (p : Program) : Json :=
  .object
    [("classes", ofList ClassDecl.toJson p.classes),
      ("functions", ofList MethodDecl.toJson p.functions),
      ("rules", ofList Rule.toJson p.rules)]

end Program

end Source

end SkipCode
