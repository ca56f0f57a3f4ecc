import SkipCode.Lower.Scope

/-!
# Lowering expressions

An expression becomes an element. What has an effect, a call or a `new`, writes its actions first
and becomes an element that reads its result.

A method that is not recursive is expanded at each of its calls. A recursive one is written once
per outermost call, as a *region*:

            push parameters, this, return address -1
    body:   <body>                       calls inside lead back here
            address = top of return addresses
            pop return address, this, parameters
            skip_if address != 0, 1
            skip → behind call 0
            …

A call inside puts its arguments into temporaries, pushes them with its own number as the return
address and skips back to the body.

Expanding a body means lowering it in another frame. It is not part of the expression, so the
functions on the tree are given an `Expander` that lowers bodies.
-/

namespace SkipCode

open Source (AssignOp ConstructorDecl Expr MethodDecl Stmt)

/-- How the bodies of declarations are lowered: their statements in a scope of their own, and the
initial values of fields. -/
structure Expander where
  block : List Stmt → Lower Unit
  initial : Expr → Lower Element

namespace Lower

/-! ## Fields -/

/-- The entry of an instance in the stack of a field. -/
def fieldVar (className field : String) (handle : Element) : Lower IndexedVar := do
  let classes := (← get).session.classes
  let slot ← (classes.findField className field : Except LowerError _)
  let layout ← (classes.layout className : Except LowerError _)
  onStorage (ClassStorage.prepare layout)
  return (← onStorage (ClassStorage.fieldStack slot.stack)).child handle

def staticVar (className field : String) : Lower IndexedVar := do
  let (owner, _) ← ((← get).session.classes.findStatic className field : Except LowerError _)
  onStorage (ClassStorage.staticField owner field)

/-- A variable that every actor has a copy of. -/
def actorVar (name : String) : Lower Variable := do
  let v ← lookup name
  if v.pool? = some .actor then return v else throw (.unsupported (.actorAccess name))

/-! ## Expanded bodies -/

/-- Whether an element gives the same value however often it is read in a body. -/
def isStable : Element → Bool
  | .variable .. => true
  | .number _ => true
  | .lastOf (.variable ..) => true
  | _ => false

/-- Binds `this` to the receiver, computing it first unless it is stable. -/
def bindThis (receiver : Element) : Lower Unit := do
  if isStable receiver then bind "this" (.reference receiver)
  else discard (declare "this" (some receiver) false)

/-- Declares the parameters with their arguments. -/
def declareParams (params : List String) (arguments : List Element) : Lower Unit :=
  (params.zip arguments).forM fun (param, argument) =>
    discard (declare param (some argument) false)

/-- Lowers a body in place. Its returns lead behind the end of its parameters. -/
def expandBody (into : Expander) (key : String) (params : List String) (body : List Stmt)
    (receiver : Option Element) (arguments : List Element) (result : Option IndexedVar) :
    Lower Unit := do
  let frame ← expandedFrame (some key) result
  inScope do
    pushFrame frame
    match receiver with
    | some receiver => bindThis receiver
    | none => pure ()
    declareParams params arguments
    into.block body
  closeFrame

/-! ## Recursive methods -/

/-- Declares the stacks of a region for the outermost call, and the temporaries of the calls
inside. -/
def openRegion (key : String) (params : List String) (receiver : Option Element)
    (arguments : List Element) (result : IndexedVar) : Lower Region := do
  let paramVars ← (params.zip arguments).mapM fun (param, argument) =>
    declareStack param (some argument)
  let this ← receiver.mapM fun receiver => declareStack "this" (some receiver)
  let returnAddress ← declareStack (← hiddenName "ret_addr") (some (.number (.ofInt (-1))))
  let argumentTemps ← params.mapM fun _ => temp "arg"
  let thisTemp ← this.mapM fun _ => temp "this"
  return {
    key := key
    bodyStart := ← position
    params := paramVars
    this := this
    returnAddress := returnAddress
    argumentTemps := argumentTemps
    thisTemp := thisTemp
    result := result
    callSites := [] }

def pushRegion (region : Region) : Lower Unit :=
  modify fun s => { s with regions := region :: s.regions }

def popRegion : Lower Region := do
  let s ← get
  match s.regions with
  | region :: rest =>
    set { s with regions := rest }
    return region
  | [] => throw (.defect .regionClosedTwice)

/-- Writes the end of a region: by the return address it goes on behind one of the calls inside, or
runs out behind the region when the outermost call returns. -/
def dispatch (address : IndexedVar) : (number : Nat) → List Nat → Lower Unit
  | _, [] => pure ()
  | number, continuation :: rest => do
    emit [.skipIf (.compare (address.get none) .notEqual (.ofNat number)) (some 1)]
    modifyList (·.pushSkipTo continuation)
    dispatch address (number + 1) rest

/-- Writes the region of a recursive method for an outermost call. -/
def expandRegion (into : Expander) (key : String) (params : List String) (body : List Stmt)
    (receiver : Option Element) (arguments : List Element) : Lower Element := do
  let result ← temp "ret"
  let address ← temp "addr"
  let outer ← expandedFrame (some key) (some result)
  let callSites ← inScope do
    let region ← openRegion key params receiver arguments result
    pushFrame { outer with scopeDepth := outer.scopeDepth + 1, recursive := true }
    pushRegion region
    into.block body
    closeFrame
    let region ← popRegion
    emit (address.set (region.returnAddress.get none) none [])
    return region.callSites
  dispatch address 0 callSites
  return result.get none

/-- The innermost open region of a key, with its place among the regions. -/
def findRegion? (regions : List Region) (key : String) : Option (Nat × Region) :=
  match regions.findIdx? fun region => region.key == key with
  | some i => (regions[i]?).map fun region => (i, region)
  | none => none

/-- Writes a call from inside an open region. The arguments may read the variables of the running
activation, so all of them are computed before the first is pushed. -/
def callRegion (index : Nat) (region : Region) (receiver : Option Element)
    (arguments : List Element) : Lower Element := do
  (region.argumentTemps.zip arguments).forM fun (temp, argument) =>
    emit (temp.set argument none [])
  match region.thisTemp, receiver with
  | some temp, some receiver => emit (temp.set receiver none [])
  | _, _ => pure ()
  (region.params.zip region.argumentTemps).forM fun (param, temp) =>
    emit (param.pushActions (temp.get none) none)
  match region.this, region.thisTemp with
  | some this, some temp => emit (this.pushActions (temp.get none) none)
  | _, _ => pure ()
  emit (region.returnAddress.pushActions (.ofNat region.callSites.length) none)
  modifyList (·.pushSkipTo region.bodyStart)
  let continuation ← position
  modify fun s =>
    { s with
      regions := s.regions.modify index fun region =>
        { region with callSites := region.callSites ++ [continuation] } }
  return region.result.get none

/-! ## Calls -/

/-- What a call means: a function, or a method of the class that declares it. The key tells
declarations apart. -/
structure Callee where
  key : String
  decl : MethodDecl
  /-- Whether the body has a `this`. -/
  takesReceiver : Bool

def resolveCallee (className : Option String) (method : String) : Lower Callee := do
  let session := (← get).session
  match className with
  | none =>
    let decl ← (session.findFunction method : Except LowerError _)
    return ⟨method, decl, false⟩
  | some className =>
    let (owner, decl) ← (session.classes.findMethod className method : Except LowerError _)
    return ⟨s!"{owner}.{method}", decl, !decl.isStatic⟩

def checkArity (callee : Callee) (arguments : Nat) : Lower Unit := do
  if callee.decl.params.length ≠ arguments then
    throw (.defect (.wrongArgumentCount callee.key callee.decl.params.length arguments))

/-- Writes a call and gives the element of its result. -/
def expandCall (into : Expander) (callee : Callee) (receiver : Option Element)
    (arguments : List Element) : Lower Element := do
  let s ← get
  let decl := callee.decl
  let result ←
    if decl.recursive then
      match findRegion? s.regions callee.key with
      | some (index, region) => callRegion index region receiver arguments
      | none => expandRegion into callee.key decl.params decl.body receiver arguments
    else if s.frames.any fun frame => frame.method == some callee.key then
      throw (.unsupported (.selfCall callee.key))
    else do
      let result ← temp "ret"
      expandBody into callee.key decl.params decl.body receiver arguments (some result)
      pure (result.get none)
  materialize result

/-! ## Instances -/

/-- The stacks of the instance fields of a class with their initial values, those of its root
first. -/
def fieldInitials (classes : ClassTable) (className : String) :
    Except LowerError (List (Nat × Option Expr)) := do
  (← classes.allFields className).mapM fun slot => do
    return (slot.stack, (← classes.fieldDecl slot).initial)

/-- Writes the initial values of the fields of an instance. They see `this` and nothing of the
caller. -/
def initializeFields (into : Expander) (this : Element) (fields : List (Nat × Option Expr)) :
    Lower Unit := do
  let frame ← expandedFrame none none
  inScope do
    pushFrame frame
    bind "this" (.reference this)
    fields.forM fun (stack, initial) => do
      let value ← match initial with
        | some e => into.initial e
        | none => pure .neutral
      emit ((← onStorage (ClassStorage.fieldStack stack)).set value none [this])
  closeFrame

/-- Writes a `new`: takes a handle, initializes the fields and runs the constructor. -/
def expandNew (into : Expander) (className : String) (constructorIndex : Nat)
    (arguments : List Element) : Lower Element := do
  let session := (← get).session
  let constructor ←
    (session.classes.constructor className constructorIndex : Except LowerError ConstructorDecl)
  if constructor.params.length ≠ arguments.length then
    throw (.defect (.wrongConstructorArgumentCount className constructorIndex
      constructor.params.length arguments.length))
  let fields ← (fieldInitials session.classes className : Except LowerError _)
  let handle ← declare (← hiddenName "new") none false
  let layout ← (session.classes.layout className : Except LowerError _)
  onStorage (ClassStorage.prepare layout)
  onStorage (ClassStorage.acquireHandle session.config handle)
  let this := handle.get
  initializeFields into this fields
  expandBody into s!"{className}.new#{constructorIndex}" constructor.params constructor.body
    (some this) arguments none
  return this

end Lower

open Lower in
mutual

/-- Lowers an expression. Operands are lowered from left to right. -/
def lowerExpr (into : Expander) : Expr → Lower Element
  | .number x => pure (.number x)
  | .bool b => pure (.bool b)
  | .array items => do return .array (← lowerExprs into items)
  | .var name => do return (← lookup name).get
  | .index array index => do
    let array ← lowerExpr into array
    let index ← lowerExpr into index
    return .itemAt array index
  | .field object className field => do
    let handle ← lowerExpr into object
    return (← fieldVar className field handle).get none
  | .staticField className field => do return (← staticVar className field).get none
  | .actorVar actor name => do
    let v ← actorVar name
    let actor ← lowerExpr into actor
    return v.getFor (some actor)
  | .binary op lhs rhs => do
    let lhs ← lowerExpr into lhs
    let rhs ← lowerExpr into rhs
    return .binary op lhs rhs
  | .not inner => do return (← lowerExpr into inner).negate
  | .negate inner => do return (Element.ofNat 0).subtract (← lowerExpr into inner)
  | .length inner => do return .countOf (← lowerExpr into inner)
  | .new className constructorIndex arguments => do
    let arguments ← lowerExprs into arguments
    expandNew into className constructorIndex arguments
  | .call className method object arguments => do
    let callee ← resolveCallee className method
    checkArity callee arguments.length
    let receiver ← match object with
      | some object =>
        if callee.takesReceiver then some <$> lowerExpr into object else pure none
      | none =>
        if callee.takesReceiver then (fun v : Variable => some v.get) <$> lookup "this"
        else pure none
    let arguments ← lowerExprs into arguments
    expandCall into callee receiver arguments
  | .this => do return (← lookup "this").get
  | .currentActor => pure .eventPlayer

def lowerExprs (into : Expander) : List Expr → Lower (List Element)
  | [] => pure []
  | e :: es => do
    let first ← lowerExpr into e
    let rest ← lowerExprs into es
    return first :: rest

end

end SkipCode
