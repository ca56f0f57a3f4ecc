import SkipCode.Proofs.Balance

/-!
# What bodies mean

Here the statements of a body are given a meaning of their own, without a list, slots or skips: a
variable is a box, the storage of instances is a value for each field, and a conditional does the
first arm whose condition holds.

* `Term`: an expression whose names are resolved and whose calls are done. `Term.eval` is its value,
  or that of its negation. A comparison is negated by its inverse, so where a NaN is compared by
  order neither the condition nor its negation holds. Such a test is not decided (`Term.test`), and
  no run gets past it;
* `Settles`: how the calls of an expression are done, from left to right, and what is left to
  evaluate;
* `Does`: how statements run, with how they end. What calls mean is a parameter of it.
-/

namespace SkipCode

open Engine (arithmetic compare itemAt)
open Lower (Callee)
open Source (AssignOp BinaryOp Branch Expr MethodDecl Place Stmt StmtKind)

/-- The comparison that stands for the negation of one. -/
def Source.BinaryOp.inverse? : BinaryOp → Option BinaryOp
  | eq => some ne
  | ne => some eq
  | lt => some ge
  | le => some gt
  | gt => some le
  | ge => some lt
  | _ => none

namespace Meaning

/-! ## Values of terms -/

/-- Where a run of a body keeps a variable. -/
inductive Box where
  /-- The one place of a plain variable of a unit, by the number of its declaration. -/
  | declared (site : Nat)
  /-- The place of a variable for one time that its scope is entered. -/
  | entered (stacked : Bool) (n : Nat)
deriving DecidableEq

/-- Whether the target keeps the variable on a stack. -/
def Box.stacked : Box → Bool
  | declared _ => false
  | entered stacked _ => stacked

/-- An expression with its names resolved and its calls replaced by their results. -/
inductive Term where
  | value (v : Value)
  | box (c : Box)
  | array (items : List Term)
  | item (array index : Term)
  /-- The entry of an instance in the stack of a field. -/
  | field (stack : Nat) (handle : Term)
  | static (owner field : String)
  | binary (op : BinaryOp) (lhs rhs : Term)
  | not (inner : Term)
  | negate (inner : Term)
  | length (array : Term)

/-- The fields of all instances, and the static fields. -/
structure World where
  fields : Nat → Value
  statics : String → String → Value

/-- What a body has at a moment: the values of its boxes, how many of them were entered, and the
world. -/
structure State where
  boxes : Box → Value
  entries : Nat
  world : World

/-- A value, or its negation. -/
def signed (negated : Bool) (v : Value) : Value := if negated then .bool (!v.truthy) else v

/-- The value of an operator. -/
def apply (op : BinaryOp) (a b : Value) : Value :=
  match op with
  | .add => .number (arithmetic .add a.asNumber b.asNumber)
  | .sub => .number (arithmetic .subtract a.asNumber b.asNumber)
  | .mul => .number (arithmetic .multiply a.asNumber b.asNumber)
  | .div => .number (arithmetic .divide a.asNumber b.asNumber)
  | .mod => .number (arithmetic .modulo a.asNumber b.asNumber)
  | .eq => .bool (compare .equal a b)
  | .ne => .bool (compare .notEqual a b)
  | .lt => .bool (compare .less a b)
  | .le => .bool (compare .lessEqual a b)
  | .gt => .bool (compare .greater a b)
  | .ge => .bool (compare .greaterEqual a b)
  | .and => .bool (a.truthy && b.truthy)
  | .or => .bool (a.truthy || b.truthy)

/-- The value of an operator, or of its negation. -/
def operate (negated : Bool) (op : BinaryOp) (a b : Value) : Value :=
  match negated, op.inverse? with
  | true, some inverse => apply inverse a b
  | _, _ => signed negated (apply op a b)

mutual

/-- The value of a term, or of its negation. -/
def Term.eval (st : State) : (negated : Bool) → Term → Value
  | negated, .value v => signed negated v
  | negated, .box c => signed negated (st.boxes c)
  | negated, .array items => signed negated (.array (evalAll st items))
  | negated, .item array index =>
    signed negated (itemAt (array.eval st false) (index.eval st false).asNumber)
  | negated, .field stack handle =>
    signed negated (itemAt (st.world.fields stack) (handle.eval st false).asNumber)
  | negated, .static owner field => signed negated (st.world.statics owner field)
  | negated, .binary op lhs rhs => operate negated op (lhs.eval st false) (rhs.eval st false)
  | negated, .not inner => inner.eval st (!negated)
  | negated, .negate inner =>
    signed negated (.number (arithmetic .subtract (.ofNat 0) (inner.eval st false).asNumber))
  | negated, .length array => signed negated (.number (.ofNat (array.eval st false).items.length))

def evalAll (st : State) : List Term → List Value
  | [] => []
  | t :: rest => t.eval st false :: evalAll st rest

end

/-- Whether a condition holds, unless its negation says the same. -/
def Term.test (st : State) (t : Term) : Option Bool :=
  if (t.eval st true).truthy = (t.eval st false).truthy then none else some (t.eval st false).truthy

/-! ## Writes -/

/-- An array with one item replaced, as a copy of the items before it and behind it. -/
def spliced (array : Value) (index : Binary64) (v : Value) : Value :=
  Engine.append
    (Engine.append (Engine.slice array (.ofNat 0) index) (.array [v]))
    (Engine.slice array (arithmetic .add index (.ofNat 1)) (.ofNat Element.restCount))

/-- A value with another one at the end of a path of indices. -/
def rebuilt (old v : Value) : List Value → Value
  | [] => v
  | i :: rest => spliced old i.asNumber (rebuilt (itemAt old i.asNumber) v rest)

/-- What a place holds behind a write, unless the index is none or the array is too long. -/
def put (limit : Nat) (old v : Value) : List Value → Option Value
  | [] => if v.items.length ≤ limit then some v else none
  | i :: rest =>
    if i.asNumber.less 0 || !i.asNumber.isFinite then none
    else if limit ≤ i.asNumber.toIndex then none
    else
      let items := Engine.setItem old.items i.asNumber.toIndex
        (rebuilt (itemAt old i.asNumber) v rest)
      if items.length ≤ limit then some (.array items) else none

namespace State

def setBox (st : State) (c : Box) (v : Value) : State :=
  { st with boxes := Function.update st.boxes c v }

def setField (st : State) (stack : Nat) (v : Value) : State :=
  { st with world := { st.world with fields := Function.update st.world.fields stack v } }

def setStatic (st : State) (owner field : String) (v : Value) : State :=
  { st with
    world := { st.world with
      statics := fun o f => if o = owner ∧ f = field then v else st.world.statics o f } }

/-- Gives a new box its first value. -/
def enter (st : State) (c : Box) (v : Value) : State :=
  { st.setBox c v with entries := st.entries + 1 }

/-- Writes to what a term stands for. A variable that is kept on a stack is rebuilt inside the
stack, whose length alone is bounded. -/
def write (limit : Nat) (st : State) (target : Term) (path : List Value) (v : Value) :
    Option State :=
  match target with
  | .box c =>
    if c.stacked then some (st.setBox c (rebuilt (st.boxes c) v path))
    else (put limit (st.boxes c) v path).map (st.setBox c)
  | .field stack handle =>
    (put limit (st.world.fields stack) v (handle.eval st false :: path)).map (st.setField stack)
  | .static owner field =>
    (put limit (st.world.statics owner field) v path).map (st.setStatic owner field)
  | _ => none

end State

/-! ## Expressions -/

/-- How the variables of a body are kept. -/
inductive Mode where
  /-- In the body of a unit each plain declaration has a place. -/
  | unit
  /-- In a body that is expanded plain variables are plain. -/
  | expanded
  /-- In a recursive body all variables are on stacks. -/
  | recursive
deriving DecidableEq

/-- The box of a declaration. -/
def Mode.box (mode : Mode) (stacked : Bool) (site entries : Nat) : Box :=
  match stacked, mode with
  | false, .unit => .declared site
  | false, .expanded => .entered false entries
  | _, _ => .entered true entries

/-- What does not change while a program runs. -/
structure Setting where
  classes : ClassTable
  functions : List MethodDecl
  /-- The longest array that fits a place. -/
  limit : Nat
  actor : Int64

/-- What calls mean: the body from which is called, the callee, its receiver and arguments, the
world, the result if there is one, and the world behind the call. -/
abbrev Calls := Mode → Callee → Option Value → List Value → World → Option Value → World → Prop

abbrev Env := List (String × Term)

/-- The declaration that is called. -/
def Setting.callee? (x : Setting) : Option String → String → Option Callee
  | none, method =>
    (x.functions.find? fun f => f.name == method).map fun decl => ⟨method, decl, false⟩
  | some className, method =>
    (x.classes.findMethod className method).toOption.map fun (owner, decl) =>
      ⟨s!"{owner}.{method}", decl, !decl.isStatic⟩

/-- How the terms of its operands make the term of an expression. -/
def termOf (actor : Int64) : Expr → Option (List Expr × (List Term → Term))
  | .number x => some ([], fun _ => .value (.number x))
  | .bool b => some ([], fun _ => .value (.bool b))
  | .array items => some (items, .array)
  | .index array index => some ([array, index], fun
    | [array, index] => .item array index
    | _ => .value .neutral)
  | .binary op lhs rhs => some ([lhs, rhs], fun
    | [lhs, rhs] => .binary op lhs rhs
    | _ => .value .neutral)
  | .not inner => some ([inner], fun
    | [inner] => .not inner
    | _ => .value .neutral)
  | .negate inner => some ([inner], fun
    | [inner] => .negate inner
    | _ => .value .neutral)
  | .length array => some ([array], fun
    | [array] => .length array
    | _ => .value .neutral)
  | .currentActor => some ([], fun _ => .value (.number (.ofInt actor.toInt)))
  | _ => none

/-- How expressions settle: their calls are done from left to right, and terms are left. Calls do
not change the boxes of their caller, so the terms give the values that the operands had when they
were passed. -/
inductive Settles (x : Setting) (calls : Calls) (mode : Mode) (env : Env) :
    Task → State → List Term → State → Prop
  | nil {st} : Settles x calls mode env (.exprs []) st [] st
  | cons {e es st t st₁ ts st₂} : Settles x calls mode env (.expr e) st [t] st₁ →
      Settles x calls mode env (.exprs es) st₁ ts st₂ →
      Settles x calls mode env (.exprs (e :: es)) st (t :: ts) st₂
  | node {e es build st ts st₁} : termOf x.actor e = some (es, build) →
      Settles x calls mode env (.exprs es) st ts st₁ →
      Settles x calls mode env (.expr e) st [build ts] st₁
  | var {name st t} : env.lookup name = some t →
      Settles x calls mode env (.expr (.var name)) st [t] st
  | this {st t} : env.lookup "this" = some t → Settles x calls mode env (.expr .this) st [t] st
  | field {object className field st t st₁ slot} :
      Settles x calls mode env (.expr object) st [t] st₁ →
      x.classes.findField className field = .ok slot →
      Settles x calls mode env (.expr (.field object className field)) st [.field slot.stack t] st₁
  | staticField {className field st owner decl} :
      x.classes.findStatic className field = .ok (owner, decl) →
      Settles x calls mode env (.expr (.staticField className field)) st [.static owner field] st
  | call {className method object arguments st callee rs st₁ ts st₂ v w} :
      x.callee? className method = some callee → callee.decl.params.length = arguments.length →
      Settles x calls mode env (.exprs (Lower.receiverOf callee object)) st rs st₁ →
      Settles x calls mode env (.exprs arguments) st₁ ts st₂ →
      calls mode callee (evalAll st₂ rs).head? (evalAll st₂ ts) st₂.world (some v) w →
      Settles x calls mode env (.expr (.call className method object arguments)) st [.value v]
        { st₂ with world := w }

/-! ## Statements -/

/-- How statements end. -/
inductive Ending where
  | next
  /-- On the way out of the loop `k` loops out. -/
  | leave (k : Nat)
  /-- On the way to the next round of the loop `k` loops out. -/
  | again (k : Nat)
  | returned (v : Option Value)

/-- The same in the target, which has the value elsewhere. -/
def Ending.exit : Ending → Exit
  | next => .next
  | leave k => .leave k
  | again k => .again k
  | returned _ => .ret

/-- How a loop ends when a round does not let it go on, stop or start again. -/
def Ending.beyond : Ending → Option Ending
  | leave (k + 1) => some (leave k)
  | again (k + 1) => some (again k)
  | returned v => some (returned v)
  | _ => none

/-- A declaration that gives a unit a place for a plain variable. -/
def declaresPlain : StmtKind → Bool
  | .define _ _ recursive => !recursive
  | .forEach _ index _ _ => index.isSome
  | _ => false

/-- How many places a piece of the body of a unit declares. -/
def sites (kinds : List StmtKind) : Nat := kinds.countP declaresPlain

/-- What an assignment writes to. -/
def targetOf (x : Setting) (env : Env) : Place → List Term → Option Term
  | .var name, _ =>
    match env.lookup name with
    | some (.box c) => some (.box c)
    | _ => none
  | .field _ className field, [handle] =>
    (x.classes.findField className field).toOption.map fun slot => .field slot.stack handle
  | .staticField className field, _ =>
    (x.classes.findStatic className field).toOption.map fun p => .static p.1 field
  | _, _ => none

/-- What an assignment writes. -/
def combined (op : AssignOp) (current : Term) (index : List Term) (value : Term) : Term :=
  match op.binary? with
  | none => value
  | some op => .binary op (index.foldl .item current) value

/-- A piece of the source, or the rounds of a loop over an array that are left. -/
inductive Work where
  | piece (task : Task)
  | rounds (element : String) (array : Term) (index : Box) (body : List Stmt)

/-- How statements run: from a state, with how they end, the names they declare and the state behind
them. `site` is the number of the next declaration in the unit. -/
inductive Does (x : Setting) (calls : Calls) (mode : Mode) :
    (site : Nat) → Env → Work → State → Ending → Env → State → Prop
  | stmt {site env k span st ending env' st'} :
      Does x calls mode site env (.piece (.kind k)) st ending env' st' →
      Does x calls mode site env (.piece (.stmt (.mk k span))) st ending env' st'
  | stmts_nil {site env st} : Does x calls mode site env (.piece (.stmts [])) st .next env st
  | stmts_cons {site env first rest st env₁ st₁ ending env₂ st₂} :
      Does x calls mode site env (.piece (.stmt first)) st .next env₁ st₁ →
      Does x calls mode (site + sites first.kinds) env₁ (.piece (.stmts rest)) st₁ ending env₂ st₂ →
      Does x calls mode site env (.piece (.stmts (first :: rest))) st ending env₂ st₂
  | stmts_exit {site env first rest st ending env₁ st₁} :
      Does x calls mode site env (.piece (.stmt first)) st ending env₁ st₁ → ending ≠ .next →
      Does x calls mode site env (.piece (.stmts (first :: rest))) st ending env₁ st₁
  | block {site env body st ending env' st'} :
      Does x calls mode site env (.piece (.stmts body)) st ending env' st' →
      Does x calls mode site env (.piece (.block body)) st ending env st'
  | define {site env name e recursive st t st₁ c} : Settles x calls mode env (.expr e) st [t] st₁ →
      mode.box recursive site st₁.entries = c →
      (c.stacked = false → (t.eval st₁ false).items.length ≤ x.limit) →
      Does x calls mode site env (.piece (.kind (.define name (some e) recursive))) st .next
        ((name, .box c) :: env) (st₁.enter c (t.eval st₁ false))
  | assign {site env target index op value st is st₁ os st₂ t v st₃ st₄} :
      Settles x calls mode env (.exprs index) st is st₁ →
      Settles x calls mode env (.exprs (Lower.targetOperands target)) st₁ os st₂ →
      targetOf x env target os = some t → Settles x calls mode env (.expr value) st₂ [v] st₃ →
      st₃.write x.limit t (evalAll st₃ is) ((combined op t is v).eval st₃ false) = some st₄ →
      Does x calls mode site env (.piece (.kind (.assign target index op value))) st .next env st₄
  | call {site env className method object arguments st callee rs st₁ ts st₂ r w} :
      x.callee? className method = some callee → callee.decl.params.length = arguments.length →
      Settles x calls mode env (.exprs (Lower.receiverOf callee object)) st rs st₁ →
      Settles x calls mode env (.exprs arguments) st₁ ts st₂ →
      calls mode callee (evalAll st₂ rs).head? (evalAll st₂ ts) st₂.world r w →
      Does x calls mode site env
        (.piece (.kind (.expr (.call className method object arguments)))) st
        .next env { st₂ with world := w }
  | expr {site env e st t st₁} : Settles x calls mode env (.expr e) st [t] st₁ →
      Does x calls mode site env (.piece (.kind (.expr e))) st .next env st₁
  | blockKind {site env body st ending env' st'} :
      Does x calls mode site env (.piece (.block body)) st ending env' st' →
      Does x calls mode site env (.piece (.kind (.block body))) st ending env st'
  -- exits
  | break {site env depth st} :
      Does x calls mode site env (.piece (.kind (.break depth))) st (.leave depth.toNat) env st
  | continue {site env depth st} :
      Does x calls mode site env (.piece (.kind (.continue depth))) st (.again depth.toNat) env st
  | return_none {site env st} :
      Does x calls mode site env (.piece (.kind (.return none))) st (.returned none) env st
  | return_some {site env e st t st₁} : Settles x calls mode env (.expr e) st [t] st₁ →
      (mode ≠ .unit → (t.eval st₁ false).items.length ≤ x.limit) →
      Does x calls mode site env (.piece (.kind (.return (some e)))) st
        (.returned (some (t.eval st₁ false))) env st₁
  -- conditionals
  | cond {site env branches otherwise st ending env' st'} :
      Does x calls mode site env (.piece (.arms branches otherwise)) st ending env' st' →
      Does x calls mode site env (.piece (.kind (.cond branches otherwise))) st ending env st'
  | arms_nil {site env st} : Does x calls mode site env (.piece (.arms [] none)) st .next env st
  | arms_otherwise {site env body st ending env' st'} :
      Does x calls mode site env (.piece (.block body)) st ending env' st' →
      Does x calls mode site env (.piece (.arms [] (some body))) st ending env st'
  | arms_hit {site env condition body rest otherwise st t st₁ ending env' st'} :
      Settles x calls mode env (.expr condition) st [t] st₁ → t.test st₁ = some true →
      Does x calls mode site env (.piece (.block body)) st₁ ending env' st' →
      Does x calls mode site env (.piece (.arms (.mk condition body :: rest) otherwise)) st
        ending env st'
  | arms_miss {site env condition body rest otherwise st t st₁ ending env' st'} :
      Settles x calls mode env (.expr condition) st [t] st₁ → t.test st₁ = some false →
      Does x calls mode (site + sites (Source.kindsOf body)) env
        (.piece (.arms rest otherwise)) st₁ ending
        env' st' →
      Does x calls mode site env (.piece (.arms (.mk condition body :: rest) otherwise)) st
        ending env st'
  -- loops
  | while {site env condition body st ending env' st'} :
      Does x calls mode site env (.piece (.loop condition body [])) st ending env' st' →
      Does x calls mode site env (.piece (.kind (.while condition body))) st ending env st'
  | for {site env start condition step body st env₁ st₁ ending env₂ st₂} :
      Does x calls mode site env (.piece (.stmts start.toList)) st .next env₁ st₁ →
      Does x calls mode (site + sites (Source.kindsOf start.toList)) env₁
        (.piece (.loop condition body step.toList)) st₁ ending env₂ st₂ →
      Does x calls mode site env (.piece (.kind (.for start condition step body))) st ending env st₂
  | for_exit {site env start condition step body st ending env₁ st₁} :
      Does x calls mode site env (.piece (.stmts start.toList)) st ending env₁ st₁ →
        ending ≠ .next →
      Does x calls mode site env (.piece (.kind (.for start condition step body))) st ending env st₁
  | loop_over {site env condition body step st t st₁} :
      Settles x calls mode env (.expr condition) st [t] st₁ → t.test st₁ = some false →
      Does x calls mode site env (.piece (.loop condition body step)) st .next env st₁
  | loop_leave {site env condition body step st t st₁ env₂ st₂} :
      Settles x calls mode env (.expr condition) st [t] st₁ → t.test st₁ = some true →
      Does x calls mode site env (.piece (.block body)) st₁ (.leave 0) env₂ st₂ →
      Does x calls mode site env (.piece (.loop condition body step)) st .next env st₂
  | loop_beyond {site env condition body step st t st₁ ending env₂ st₂ ending'} :
      Settles x calls mode env (.expr condition) st [t] st₁ → t.test st₁ = some true →
      Does x calls mode site env (.piece (.block body)) st₁ ending env₂ st₂ →
      ending.beyond = some ending' →
      Does x calls mode site env (.piece (.loop condition body step)) st ending' env st₂
  | loop_step {site env condition body step st t st₁ ending env₂ st₂ ending' env₃ st₃} :
      Settles x calls mode env (.expr condition) st [t] st₁ → t.test st₁ = some true →
      Does x calls mode site env (.piece (.block body)) st₁ ending env₂ st₂ →
      ending = .next ∨ ending = .again 0 →
      Does x calls mode (site + sites (Source.kindsOf body)) env
        (.piece (.block step)) st₂ ending' env₃
        st₃ → ending' ≠ .next →
      Does x calls mode site env (.piece (.loop condition body step)) st ending' env st₃
  | loop_round {site env condition body step st t st₁ ending env₂ st₂ env₃ st₃ ending' env₄ st₄} :
      Settles x calls mode env (.expr condition) st [t] st₁ → t.test st₁ = some true →
      Does x calls mode site env (.piece (.block body)) st₁ ending env₂ st₂ →
      ending = .next ∨ ending = .again 0 →
      Does x calls mode (site + sites (Source.kindsOf body)) env
        (.piece (.block step)) st₂ .next env₃ st₃ →
      Does x calls mode site env (.piece (.loop condition body step)) st₃ ending' env₄ st₄ →
      Does x calls mode site env (.piece (.loop condition body step)) st ending' env st₄
  -- the array is evaluated again in each round, since the body may change what it reads
  | forEach {site env element index array body st t st₁ c ending env' st'} :
      Settles x calls mode env (.expr array) st [t] st₁ →
      c = (match index with
        | some _ => mode.box false site st₁.entries
        | none => .entered (decide (mode = .recursive)) st₁.entries) →
      Does x calls mode (site + if index.isSome then 1 else 0)
        (index.toList.map (fun name => (name, .box c)) ++ env) (.rounds element t c body)
        (st₁.enter c (.number (.ofNat 0))) ending env' st' →
      Does x calls mode site env (.piece (.kind (.forEach element index array body))) st
        ending env st'
  | rounds_over {site env element array index body st} :
      (Binary64.ofNat (array.eval st false).items.length).lessEq (st.boxes index).asNumber = true →
      Does x calls mode site env (.rounds element array index body) st .next env st
  | rounds_leave {site env element array index body st env₁ st₁} :
      (st.boxes index).asNumber.less (.ofNat (array.eval st false).items.length) = true →
      Does x calls mode site ((element, .item array (.box index)) :: env) (.piece (.stmts body)) st
        (.leave 0) env₁ st₁ →
      Does x calls mode site env (.rounds element array index body) st .next env st₁
  | rounds_beyond {site env element array index body st ending env₁ st₁ ending'} :
      (st.boxes index).asNumber.less (.ofNat (array.eval st false).items.length) = true →
      Does x calls mode site ((element, .item array (.box index)) :: env) (.piece (.stmts body)) st
        ending env₁ st₁ → ending.beyond = some ending' →
      Does x calls mode site env (.rounds element array index body) st ending' env st₁
  | rounds_round {site env element array index body st ending env₁ st₁ ending' env₂ st₂} :
      (st.boxes index).asNumber.less (.ofNat (array.eval st false).items.length) = true →
      Does x calls mode site ((element, .item array (.box index)) :: env) (.piece (.stmts body)) st
        ending env₁ st₁ → ending = .next ∨ ending = .again 0 →
      Does x calls mode site env (.rounds element array index body)
        (st₁.setBox index
          (.number (arithmetic .add (st₁.boxes index).asNumber (.ofNat 1)))) ending' env₂ st₂ →
      Does x calls mode site env (.rounds element array index body) st ending' env st₂

end Meaning

end SkipCode
