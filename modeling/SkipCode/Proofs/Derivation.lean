import SkipCode.Proofs.Code
import SkipCode.Proofs.Lowering

/-!
# Derivations of lowering

`Lowers` says which structured code a piece of the source becomes, from which state and to which.
There is one rule for every way in which lowering can go on, the recursion that goes through the
bodies of methods included, so that what holds of all lowered code is shown by an induction on it.
The list of the unit and the skips that wait are part of the states, yet no rule looks at them: a
rule that opens or closes something lets the state have any list (`withList`).

That a successful lowering has a derivation, whose code stands in the finished list, is in
`Proofs.Layout`.
-/

namespace SkipCode

open Source (AssignOp Branch Expr Place Stmt StmtKind)

/-- A piece of the source, or of what lowering makes of it on the way. -/
inductive Task where
  | expr (e : Expr)
  | exprs (es : List Expr)
  /-- A call whose receiver and arguments are lowered. -/
  | call (callee : Lower.Callee) (receiver : Option Element) (arguments : List Element)
  /-- A body expanded in place. -/
  | body (key : String) (params : List String) (body : List Stmt) (receiver : Option Element)
      (arguments : List Element) (result : Option IndexedVar)
  | make (className : String) (constructorIndex : Nat) (arguments : List Element)
  /-- The initial values of the fields of an instance, in a body of their own. -/
  | initials (this : Element) (fields : List (Nat × Option Expr))
  | fields (this : Element) (fields : List (Nat × Option Expr))
  /-- The initial values of static fields. -/
  | statics (initials : List (String × String × Expr))
  | stmt (s : Stmt)
  | kind (k : StmtKind)
  | stmts (body : List Stmt)
  /-- Statements in a scope of their own. -/
  | block (body : List Stmt)
  /-- The arms of a conditional that are left. -/
  | arms (branches : List Branch) (otherwise : Option (List Stmt))
  /-- A loop with a condition, inside its scope; the step is a block. -/
  | loop (condition : Expr) (body step : List Stmt)

namespace UnitState

/-- The same state with another list. -/
def withList (s : UnitState) (list : ActionList) : UnitState := { s with list := list }

def opened (s : UnitState) : UnitState := { s with scopes := .empty :: s.scopes }

/-- Inside a body. -/
def entered (s : UnitState) (frame : Frame) : UnitState := { s with frames := frame :: s.frames }

/-- Inside the body of a region. -/
def within (s : UnitState) (region : Region) : UnitState :=
  { s with regions := region :: s.regions }

/-- Behind a body. -/
def left (s : UnitState) (list : ActionList) : UnitState :=
  { s with frames := s.frames.tail, list := list }

/-- Inside a loop. -/
def looping (s : UnitState) (list : ActionList) : UnitState :=
  { s with list := list, loops := s.loops.push (.new list.length s.scopes.length) }

/-- Behind the passes of a loop. -/
def looped (s : UnitState) (list : ActionList) : UnitState :=
  { s with list := list, loops := ⟨s.loops.frames.tail⟩ }

/-- The frame of a body expanded at this place. -/
def expanded (s : UnitState) (method : Option String) (result : Option IndexedVar) : Frame :=
  ⟨method, s.scopes.length, s.scopes.length, s.loops.depth, s.inRecursiveFrame, [], result⟩

/-- The frame of the body of a region whose scope is opened at this place. -/
def activation (s : UnitState) (key : String) (result : IndexedVar) : Frame :=
  { s.expanded (some key) (some result) with
    scopeDepth := s.scopes.length + 1
    recursive := true }

end UnitState

namespace Lower

variable {α : Type}

/-- A plain step that succeeds without an exhaustion, with the actions it adds. -/
structure Emits (m : Lower α) (s : UnitState) (actions : List Action) (a : α) (s' : UnitState) :
    Prop where
  run : run m s = some (.ok a, s')
  extends' : Extends s actions s'
  clean : s'.deferred = []

/-- The innermost scope is closed. -/
structure Closes (s : UnitState) (pops : List Action) (s' : UnitState) : Prop where
  closed : ∃ scope rest σ, s.scopes = scope :: rest ∧ pops = scopePops scope ∧
    scope.owned.foldlM Session.free s.session = .ok σ ∧
    s' = { s with scopes := rest, list := s.list.extend pops, session := σ }
  clean : s'.deferred = []

/-- How the elements of its operands make the element of an expression, where nothing else is
needed. -/
def nodeOf : Expr → Option (List Expr × (List Element → Element))
  | .number x => some ([], fun _ => .number x)
  | .bool b => some ([], fun _ => .bool b)
  | .array items => some (items, .array)
  | .index array index => some ([array, index], fun
    | [array, index] => .itemAt array index
    | _ => .neutral)
  | .binary op lhs rhs => some ([lhs, rhs], fun
    | [lhs, rhs] => .binary op lhs rhs
    | _ => .neutral)
  | .not inner => some ([inner], fun
    | [inner] => inner.negate
    | _ => .neutral)
  | .negate inner => some ([inner], fun
    | [inner] => (Element.ofNat 0).subtract inner
    | _ => .neutral)
  | .length array => some ([array], fun
    | [array] => .countOf array
    | _ => .neutral)
  | .currentActor => some ([], fun _ => .eventPlayer)
  | _ => none

/-- The expression of the receiver of a call, if its body has a `this`. -/
def receiverOf (callee : Callee) (object : Option Expr) : List Expr :=
  if callee.takesReceiver then [object.getD .this] else []

/-- Binds what a body sees of its call. -/
def bindCall (receiver : Option Element) (params : List String) (arguments : List Element) :
    Lower Unit := do
  match receiver with
  | some receiver => bindThis receiver
  | none => pure ()
  declareParams params arguments

/-- The actions of a call from inside an open region, up to the skip. -/
def callEntry (region : Region) (receiver : Option Element) (arguments : List Element) :
    List Action :=
  (region.argumentTemps.zip arguments).flatMap (fun p => p.1.set p.2 none []) ++
    (match region.thisTemp, receiver with
      | some temp, some receiver => temp.set receiver none []
      | _, _ => []) ++
    (region.params.zip region.argumentTemps).flatMap (fun p =>
      p.1.pushActions (p.2.get none) none) ++
    (match region.this, region.thisTemp with
      | some this, some temp => this.pushActions (temp.get none) none
      | _, _ => []) ++
    region.returnAddress.pushActions (.ofNat region.callSites.length) none

/-- A call inside a region is noted with the place where it goes on. -/
def noteCall (s : UnitState) (index continuation : Nat) : UnitState :=
  { s with
    regions := s.regions.modify index fun region =>
      { region with callSites := region.callSites ++ [continuation] } }

/-- The name of the index of a loop over an array. -/
def indexName : Option String → Lower String
  | some name => pure name
  | none => hiddenName "index"

/-- Opens a loop over an array whose index has a name. -/
def openForEachAt (name : String) (array : Element) : Lower (LoopBlock × Element) := do
  let index ← declare name none false
  let block ← onLoop (.new (.forEach array index)) (LoopBlock.setup (← get).scopes.length)
  let block ← onLoop block (LoopBlock.guard none)
  match block.element? with
  | some element => return (block, element)
  | none => throw (.defect .noLoopElement)

/-- What a `delete` does once its object is lowered. -/
def deleteHandle (handle : Element) (className : String) : Lower Unit := do
  let handle := (← declare (← hiddenName "delete") (some handle) false).get
  onStorage (ClassStorage.release (← get).session.classes className handle)

/-- The code that takes a handle: `first` tries a free one where that is wanted, `next` takes a new
one when there is none, and past the capacity the unit aborts. -/
def acquireCode (first : Option (List Action × Element)) (next : List Action) (full : Element)
    (mark : List Action) : Code :=
  match first with
  | some (first, found) =>
    .seq (.acts first) (.seq (.arm found (.acts next))
      (.seq (.arm full .abort) (.acts mark)))
  | none => .seq (.acts next) (.seq (.arm full .abort) (.acts mark))

/-- The same as actions. -/
def acquireActions (first : Option (List Action × Element)) (next : List Action) (full : Element)
    (mark : List Action) : List Action :=
  (match first with
    | some (first, found) => first ++ [.skipIf found (some (Int32.ofNat next.length))]
    | none => []) ++ next ++ [.skipIf full (some 1), .abort] ++ mark

/-- The writes of the code that takes a handle. -/
structure Acquires (config : LowerConfig) (handle : Variable) (table : IndexedVar)
    (first : Option (List Action × Element)) (next : List Action) (full : Element)
    (mark : List Action) : Prop where
  next : handle.set "new handle" (.countOf (table.get none)) [] = .ok next
  first : match first with
    | some (first, found) =>
      handle.set "new handle" (.indexOf (table.get none) (.ofNat 0)) [] = .ok first ∧
        found = .compare handle.get .notEqual (.number (.ofInt (-1)))
    | none => True
  full : full = .compare handle.get .less (.ofNat config.classCapacity.toNat)
  mark : mark = table.set (.ofNat 1) none [handle.get]

/-- What an assignment reads of its target before the target is known. -/
def targetOperands : Place → List Expr
  | .field object _ _ => [object]
  | _ => []

/-- What a target stands for, and its name for messages. -/
def resolveTarget : Place → List Element → Lower Variable
  | .var name, _ => lookup name
  | .field _ className field, [handle] => do
    return .indexed (← fieldVar className field handle)
  | .staticField className field, _ => do return .indexed (← staticVar className field)
  | _, _ => throw (.defect .noFrame)

/-- The name of a target in messages. -/
def targetName : Place → String
  | .var name => name
  | .actorVar _ name => name
  | _ => ""

/-- Where a value of a `return` goes. -/
def storeResult (result : Option IndexedVar) (value : List Element) : List Action :=
  match value.head?, result with
  | some value, some result => result.set value none []
  | _, _ => []

end Lower

open Lower

/-- The code that a piece of the source becomes, with the elements it stands for. -/
inductive Lowers : Task → UnitState → Code → List Element → UnitState → Prop
  -- expressions
  | nil {s} : Lowers (.exprs []) s (.acts []) [] s
  | cons {e es s c x s₁ d xs s₂} : Lowers (.expr e) s c [x] s₁ → Lowers (.exprs es) s₁ d xs s₂ →
      Lowers (.exprs (e :: es)) s (.seq c d) (x :: xs) s₂
  | node {e es build s c xs s₁} : nodeOf e = some (es, build) → Lowers (.exprs es) s c xs s₁ →
      Lowers (.expr e) s c [build xs] s₁
  | var {name s v} : Emits (lookup name) s [] v s →
      Lowers (.expr (.var name)) s (.acts []) [v.get] s
  | this {s v} : Emits (lookup "this") s [] v s → Lowers (.expr .this) s (.acts []) [v.get] s
  | field {object className field s c x s₁ v s₂} : Lowers (.expr object) s c [x] s₁ →
      Emits (fieldVar className field x) s₁ [] v s₂ →
      Lowers (.expr (.field object className field)) s c [v.get none] s₂
  | staticField {className field s v s₁} : Emits (staticVar className field) s [] v s₁ →
      Lowers (.expr (.staticField className field)) s (.acts []) [v.get none] s₁
  | actorVar {actor name s v c x s₁} : Emits (actorVar name) s [] v s →
      Lowers (.expr actor) s c [x] s₁ →
      Lowers (.expr (.actorVar actor name)) s c [v.getFor (some x)] s₁
  | call {className method object arguments callee s c rs s₁ d xs s₂ e x s₃} :
      Emits (resolveCallee className method) s [] callee s →
      callee.decl.params.length = arguments.length →
      Lowers (.exprs (receiverOf callee object)) s c rs s₁ →
      Lowers (.exprs arguments) s₁ d xs s₂ → Lowers (.call callee rs.head? xs) s₂ e [x] s₃ →
      Lowers (.expr (.call className method object arguments)) s (.seq c (.seq d e)) [x] s₃
  | new {className constructorIndex arguments s c xs s₁ d x s₂} :
      Lowers (.exprs arguments) s c xs s₁ →
      Lowers (.make className constructorIndex xs) s₁ d [x] s₂ →
      Lowers (.expr (.new className constructorIndex arguments)) s (.seq c d) [x] s₂
  -- calls
  | body {key params body receiver arguments result s actions s₁ c s₂ pops s₃} (list) :
      Emits (bindCall receiver params arguments) (s.opened.entered (s.expanded (some key) result))
        actions () s₁ →
      Lowers (.block body) s₁ c [] s₂ → Closes s₂ pops s₃ →
      Lowers (.body key params body receiver arguments result) s
        (.frame (.seq (.acts actions) (.seq c (.acts pops)))) [] (s₃.left list)
  | inline {callee receiver arguments s result s₁ c s₂ actions x s₃} :
      callee.decl.recursive = false → Emits (temp "ret") s [] result s₁ →
      Lowers (.body callee.key callee.decl.params callee.decl.body receiver arguments (some result))
        s₁ c [] s₂ →
      Emits (materialize (result.get none)) s₂ actions x s₃ →
      Lowers (.call callee receiver arguments) s (.seq c (.acts actions)) [x] s₃
  | reenter {callee receiver arguments s index region actions x s₁} (list continuation) :
      callee.decl.recursive = true → findRegion? s.regions callee.key = some (index, region) →
      Emits (materialize (region.result.get none)) ((noteCall s index continuation).withList list)
        actions x s₁ →
      Lowers (.call callee receiver arguments) s
        (.seq (.reenter index region.callSites.length (callEntry region receiver arguments))
          (.acts actions)) [x] s₁
  | region {callee receiver arguments s result s₁ address s₂ entry region s₃ c s₄ closing regions
      pops s₅ actions x s₆} (list list' list'') :
      callee.decl.recursive = true → findRegion? s.regions callee.key = none →
      Emits (temp "ret") s [] result s₁ → Emits (temp "addr") s₁ [] address s₂ →
      Emits (openRegion callee.key callee.decl.params receiver arguments result) s₂.opened
        entry region s₃ →
      Lowers (.block callee.decl.body)
        ((s₃.entered (s₂.activation callee.key result)).within region) c [] s₄ →
      s₄.regions = closing :: regions →
      Closes ({ s₄.left list with regions }.withList list') pops s₅ →
      Emits (materialize (result.get none)) (s₅.withList list'') actions x s₆ →
      Lowers (.call callee receiver arguments) s
        (.seq (.region entry c
            (address.set (closing.returnAddress.get none) none [] ++ pops) (address.get none))
          (.acts actions)) [x] s₆
  -- instances
  | make {className constructorIndex arguments s constructor fields hidden s₁ declared handle s₂
      layout s₃ table first next full mark s₄ c s₅ d s₆} :
      s.session.classes.constructor className constructorIndex = .ok constructor →
      fieldInitials s.session.classes className = .ok fields →
      Emits (hiddenName "new") s [] hidden s₁ →
      Emits (declare hidden none false) s₁ declared handle s₂ →
      s.session.classes.layout className = .ok layout →
      Emits (onStorage (ClassStorage.prepare layout)) s₂ [] () s₃ →
      Acquires s.session.config handle table first next full mark →
      Emits (onStorage (ClassStorage.acquireHandle s.session.config handle)) s₃
        (acquireActions first next full mark) () s₄ →
      s₄.session.classData.table = some table →
      Lowers (.initials handle.get fields) s₄ c [] s₅ →
      Lowers (.body s!"{className}.new#{constructorIndex}" constructor.params constructor.body
        (some handle.get) arguments none) s₅ d [] s₆ →
      Lowers (.make className constructorIndex arguments) s
        (.seq (.acts declared) (.seq (acquireCode first next full mark) (.seq c d)))
        [handle.get] s₆
  | initials {this fields s c s₁ pops s₂} (list) :
      Lowers (.fields this fields)
        { s.entered (s.expanded none none) with
          scopes := ⟨[("this", .reference this)], [], []⟩ :: s.scopes } c [] s₁ →
      Closes s₁ pops s₂ →
      Lowers (.initials this fields) s (.frame (.seq c (.acts pops))) [] (s₂.left list)
  | fields_nil {this s} : Lowers (.fields this []) s (.acts []) [] s
  | fields_cons {this stack initial rest s c xs s₁ v s₂ d s₃} (list) :
      Lowers (.exprs initial.toList) s c xs s₁ →
      Emits (onStorage (ClassStorage.fieldStack stack)) s₁ [] v s₂ →
      Lowers (.fields this rest) (s₂.withList list) d [] s₃ →
      Lowers (.fields this ((stack, initial) :: rest)) s
        (.seq c (.seq (.acts (v.set (xs.head?.getD .neutral) none [this])) d)) [] s₃
  | statics_nil {s} : Lowers (.statics []) s (.acts []) [] s
  | statics_cons {className field e rest s c x s₁ v s₂ d s₃} (list) :
      Lowers (.expr e) s c [x] s₁ → Emits (staticVar className field) s₁ [] v s₂ →
      Lowers (.statics rest) (s₂.withList list) d [] s₃ →
      Lowers (.statics ((className, field, e) :: rest)) s
        (.seq c (.seq (.acts (v.set x none [])) d)) [] s₃
  -- statements
  | stmt {k span s c s₁} : Lowers (.kind k) { s with span := span } c [] s₁ →
      Lowers (.stmt (.mk k span)) s c [] { s₁ with span := s.span }
  | stmts_nil {s} : Lowers (.stmts []) s (.acts []) [] s
  | stmts_cons {first rest s c s₁ d s₂} : Lowers (.stmt first) s c [] s₁ →
      Lowers (.stmts rest) s₁ d [] s₂ → Lowers (.stmts (first :: rest)) s (.seq c d) [] s₂
  | block {body s c s₁ pops s₂} : Lowers (.stmts body) s.opened c [] s₁ →
      Closes s₁ pops s₂ → Lowers (.block body) s (.seq c (.acts pops)) [] s₂
  | define {name initial recursive s c xs s₁ actions v s₂} :
      Lowers (.exprs initial.toList) s c xs s₁ →
      Emits (declare name xs.head? recursive) s₁ actions v s₂ →
      Lowers (.kind (.define name initial recursive)) s (.seq c (.acts actions)) [] s₂
  | assign {target index op value s c is s₁ d os s₂ v s₃ e x s₄ actions} (list) :
      Lowers (.exprs index) s c is s₁ → Lowers (.exprs (targetOperands target)) s₁ d os s₂ →
      Emits (resolveTarget target os) s₂ [] v s₃ → Lowers (.expr value) s₃ e [x] s₄ →
      v.set (targetName target) (combine op v.get is x) is = .ok actions →
      Lowers (.kind (.assign target index op value)) s
        (.seq c (.seq d (.seq e (.acts actions)))) [] (s₄.withList list)
  | assignActor {actor name index op value s c is s₁ v d a s₂ e x s₃ actions} (list) :
      Lowers (.exprs index) s c is s₁ → Emits (actorVar name) s₁ [] v s₁ →
      Lowers (.expr actor) s₁ d [a] s₂ → Lowers (.expr value) s₂ e [x] s₃ →
      v.setFor name (combine op (v.getFor (some a)) is x) (some a) is = .ok actions →
      Lowers (.kind (.assign (.actorVar actor name) index op value)) s
        (.seq c (.seq d (.seq e (.acts actions)))) [] (s₃.withList list)
  | cond {branches otherwise s c s₁} (list) : Lowers (.arms branches otherwise) s c [] s₁ →
      Lowers (.kind (.cond branches otherwise)) s c [] (s₁.withList list)
  | while {condition body s c s₁} : Lowers (.loop condition body []) s c [] s₁ →
      Lowers (.kind (.while condition body)) s c [] s₁
  | for {start condition step body s c s₁ d s₂ pops s₃} :
      Lowers (.stmts start.toList) s.opened c [] s₁ →
      Lowers (.loop condition body step.toList) s₁ d [] s₂ → Closes s₂ pops s₃ →
      Lowers (.kind (.for start condition step body)) s (.seq c (.seq d (.acts pops))) [] s₃
  | forEach {element index array body s c x s₁ name s₂ declared v s₃ zero d s₄ pops s₅ next pops'
      s₆} (list list' list'') :
      Lowers (.expr array) s c [x] s₁ → Emits (indexName index) s₁.opened [] name s₂ →
      Emits (declare name none false) s₂ declared v s₃ →
      v.set "foreach index" (.ofNat 0) [] = .ok zero →
      Lowers (.stmts body)
        { (s₃.looping list).withList list' with
          scopes := ⟨[(element, .reference (.itemAt x v.get))], [], []⟩ :: s₃.scopes } d [] s₄ →
      Closes s₄ pops s₅ →
      v.set "foreach index" (v.get.add (.ofNat 1)) [] = .ok next →
      Closes (s₅.looped list'') pops' s₆ →
      Lowers (.kind (.forEach element index array body)) s
        (.seq c (.seq (.acts (declared ++ zero))
          (.seq (.loop (.seq (.test (.compare v.get .greaterEqual (.countOf x)))
              (.seq d (.acts pops))) (.acts next) []) (.acts pops')))) [] s₆
  | break {depth s frame frames target loops} (list skip) : s.frames = frame :: frames →
      s.loops.frame depth frame.loopFloor "break" = .ok target →
      s.loops.addBreak depth frame.loopFloor skip = .ok loops →
      Lowers (.kind (.break depth)) s
        (.seq (.acts (pendingPops s target.scopeDepth)) (.leave depth.toNat)) []
        { s with list, loops }
  | continue {depth s frame frames target loops} (list skip) : s.frames = frame :: frames →
      s.loops.frame depth frame.loopFloor "continue" = .ok target →
      s.loops.addContinue depth frame.loopFloor skip = .ok loops →
      Lowers (.kind (.continue depth)) s
        (.seq (.acts (pendingPops s target.scopeDepth)) (.again depth.toNat)) []
        { s with list, loops }
  | return {value s c xs s₁ frame frames} (list skip) :
      Lowers (.exprs value.toList) s c xs s₁ → s₁.frames = frame :: frames →
      Lowers (.kind (.return value)) s
        (.seq c (.seq (.acts (storeResult frame.result xs ++ pendingPops s₁ frame.scopeDepth))
          .ret)) []
        { s₁ with list, frames := { frame with returns := frame.returns ++ [skip] } :: frames }
  | delete {object className s c x s₁ actions s₂} : Lowers (.expr object) s c [x] s₁ →
      Emits (deleteHandle x className) s₁ actions () s₂ →
      Lowers (.kind (.delete object className)) s (.seq c (.acts actions)) [] s₂
  | blockKind {body s c s₁} : Lowers (.block body) s c [] s₁ →
      Lowers (.kind (.block body)) s c [] s₁
  | exprKind {value s c x s₁} : Lowers (.expr value) s c [x] s₁ →
      Lowers (.kind (.expr value)) s c [] s₁
  -- arms and loops
  | arms_nil {s} : Lowers (.arms [] none) s (.acts []) [] s
  | arms_otherwise {body s c s₁} : Lowers (.block body) s c [] s₁ →
      Lowers (.arms [] (some body)) s c [] s₁
  | arms_last {condition body s c x s₁ s₂ d s₃} (list list') :
      Lowers (.expr condition) s.opened c [x] s₁ →
      Closes (s₁.withList list) [] s₂ → Lowers (.block body) s₂ d [] s₃ →
      Lowers (.arms [.mk condition body] none) s (.seq c (.arm x.negate d)) [] (s₃.withList list')
  | arms_cons {condition body rest otherwise s c x s₁ pops s₂ d s₃ e s₄} (list list') :
      Lowers (.expr condition) s.opened c [x] s₁ →
      Closes (s₁.withList list) pops s₂ → Lowers (.block body) s₂ d [] s₃ →
      Lowers (.arms rest otherwise) (s₃.withList list') e [] s₄ →
      Lowers (.arms (.mk condition body :: rest) otherwise) s
        (.seq c (.choice x.negate (.seq (.acts pops) d) (.seq (.acts pops) e))) [] s₄
  | loop {condition body step s c x s₁ pops s₂ d s₃ e s₄} (list list' list'' list''') :
      Lowers (.expr condition) (s.looping list).opened c [x] s₁ →
      Closes (s₁.withList list') pops s₂ → Lowers (.block body) s₂ d [] s₃ →
      Lowers (.block step) (s₃.looped list'') e [] s₄ →
      Lowers (.loop condition body step) s
        (.loop (.seq c (.seq (.test x.negate) (.seq (.acts pops) d))) e pops) []
        (s₄.withList list''')

end SkipCode
