import SkipCode.Proofs.ExprLayout
import SkipCode.Proofs.Mirrors

/-!
# Units without slots

The lowering of bodies, expressions and statements does the same in the blank of a state
(`Lower.Mirrors.unitBody`).
-/

namespace SkipCode

open Lower
open Source (AssignOp Branch Expr Place Stmt StmtKind)

/-- The lowering of bodies does the same without slots. -/
def Expander.Mirrors (into : Expander) :
    Prop := ∀ body, Lower.Mirrors 1 1 (into.block body) (into.block body)

namespace Lower.Mirrors

variable {before : Nat} {into : Expander}

/-! ### Bodies -/

/-- A body is expanded alike. -/
theorem expandBody (bodies : into.Mirrors) (key : String)
    (params : List String) (body : List Stmt) (receiver : Option Element) (arguments : List Element)
    (result : Option IndexedVar) :
    Mirrors 1 1 (Lower.expandBody into key params body receiver arguments result)
      (Lower.expandBody into key params body (blank receiver) (blank arguments)
        (blank result)) := by
  rw [expandBody_eq, expandBody_eq]
  exact .bind (.expandedFrame _ _) fun frame => .bind (.inScope (.bind (.pushFrame frame) fun _ =>
    .bind (.bindCall _ _ _) fun _ => (bodies body).deeper)) fun _ => .closeFrame

/-- A region is opened alike. -/
theorem openRegion (key : String) (params : List String) (receiver : Option Element)
    (arguments : List Element) (result : IndexedVar) :
    Mirrors (before + 1) (before + 1) (Lower.openRegion key params receiver arguments result)
      (Lower.openRegion key params (blank receiver) (blank arguments) (blank result)) := by
  have pushed : Mirrors (before + 1) (before + 1)
      ((params.zip arguments).mapM fun p => Lower.declareStack p.1 (some p.2))
      ((params.zip (blank arguments)).mapM fun p => Lower.declareStack p.1 (some p.2)) :=
    mapM_zip (fun p => Lower.declareStack p.1 (some p.2))
      (fun param argument => .declareStack param (some argument))
      (blank_names params) arguments
  refine .bind pushed fun params' =>
    .bind (.optionMapM (fun e => .declareStack "this" (some e)) receiver) fun this =>
    .bind (.hiddenName _) fun name => .bind (.declareStack name _) fun returnAddress => ?_
  have temps : Mirrors (before + 1) (before + 1) (params.mapM fun _ => Lower.temp "arg")
      (params.mapM fun _ => Lower.temp "arg") := by
    have all : Mirrors (before + 1) (before + 1) _ _ :=
      mapM (fun _ => Lower.temp "arg") (fun _ => .temp "arg") params
    rwa [blank_names] at all
  exact .bind temps fun _ => .bind (.optionMapM (fun _ => .temp "this") _) fun _ =>
    .bind .position fun _ => .answer rfl

/-- It is noted alike. -/
theorem pushRegion (region : Region) :
    Mirrors before before (Lower.pushRegion region) (Lower.pushRegion (blank region)) :=
  .change (fun _ _ => rfl) fun _ => ⟨rfl, rfl, rfl, rfl⟩

/-- It is closed alike. -/
theorem popRegion : Mirrors before before Lower.popRegion Lower.popRegion := by
  refine .replace fun outside s deferred fit => ?_
  cases found : s.regions with
  | nil =>
    have found' : (s.blanked deferred).regions = [] := congrArg blank found
    simp only [found']
    exact .error fit _
  | cons region rest =>
    have found' : (s.blanked deferred).regions = blank region :: blank rest := congrArg blank found
    simp only [found']
    exact .aside (t := { s with regions := rest }) fit rfl rfl rfl rfl (.ok region)

/-- Its end has the same number of calls to tell apart. -/
theorem dispatch (address : IndexedVar) (number : Nat) (sites : List Nat) :
    Mirrors before before (Lower.dispatch address number sites)
      (Lower.dispatch (blank address) number sites) := by
  induction sites generalizing number with
  | nil => exact .pure ()
  | cons site rest ih =>
    rw [Lower.dispatch, Lower.dispatch]
    have value : blank (address.get none) = (blank address).get none := address.blank_get none
    refine .bind (.emit ?_) fun _ => .bind (.pushSkipTo site) fun _ => ih (number + 1)
    rw [← value]
    rfl

theorem closeRegion (address : IndexedVar) :
    Mirrors before before (SkipCode.closeRegion address)
      (SkipCode.closeRegion (blank address)) := by
  refine .bind .closeFrame fun _ => .bind .popRegion fun region => .bind (.emit ?_) fun _ =>
    .answer (blank_positions _)
  rw [address.blank_set, region.returnAddress.blank_get]
  rfl

/-- A region is expanded alike. -/
theorem expandRegion (bodies : into.Mirrors) (key : String) (params : List String)
    (body : List Stmt) (receiver : Option Element) (arguments : List Element) :
    Mirrors 1 1 (Lower.expandRegion into key params body receiver arguments)
      (Lower.expandRegion into key params body (blank receiver) (blank arguments)) := by
  rw [expandRegion_eq, expandRegion_eq]
  refine .bind (.temp _) fun result => .bind (.temp _) fun address =>
    .bind (.expandedFrame _ (some result))
    fun outer =>
      .bind (.inScope (.bind (.openRegion _ _ _ _ _) fun region => .bind (.pushFrame _) fun _ =>
      .bind (.pushRegion _) fun _ => .bind (bodies body).deeper fun _ => .closeRegion address))
        fun sites => ?_
  rw [blank_positions]
  exact .bind (.dispatch _ _ _) fun _ => .answer (result.blank_get none)

/-- A call from inside is noted at the same position. -/
theorem noteCall (index continuation : Nat) :
    Mirrors before before (modify fun s => Lower.noteCall s index continuation)
      (modify fun s => Lower.noteCall s index continuation) := by
  refine .change (fun s deferred => ?_) fun _ => ⟨rfl, rfl, rfl, rfl⟩
  have noted (regions : List Region) : blank (regions.modify index fun region =>
        { region with callSites := region.callSites ++ [continuation] }) =
      (blank regions).modify index fun region =>
        { region with callSites := region.callSites ++ [continuation] } := by
    induction regions generalizing index with
    | nil => cases index <;> rfl
    | cons region rest ih =>
      cases index with
      | zero => rfl
      | succ i => exact congrArg (blank region :: ·) (ih i)
  exact congrArg (fun regions => { s.blanked deferred with regions }) (noted s.regions)

theorem pushTemp (v : RecursiveVar) (temp : IndexedVar) :
    Mirrors before before (Lower.emit (v.pushActions (temp.get none) none))
      (Lower.emit ((blank v).pushActions ((blank temp).get none) none)) := by
  refine .emit ?_
  rw [v.blank_pushActions none, temp.blank_get none]
  rfl

/-- A call from inside is made alike. -/
theorem callRegion (index : Nat) (region : Region) (receiver : Option Element)
    (arguments : List Element) :
    Mirrors before before (Lower.callRegion index region receiver arguments)
      (Lower.callRegion index (blank region) (blank receiver) (blank arguments)) := by
  have last : Mirrors before before (do
        Lower.emit (region.returnAddress.pushActions (.ofNat region.callSites.length) none)
        Lower.modifyList (·.pushSkipTo region.bodyStart)
        let continuation ← Lower.position
        modify fun s => Lower.noteCall s index continuation
        return region.result.get none) (do
        Lower.emit ((blank region.returnAddress).pushActions (.ofNat region.callSites.length) none)
        Lower.modifyList (·.pushSkipTo region.bodyStart)
        let continuation ← Lower.position
        modify fun s => Lower.noteCall s index continuation
        return (blank region.result).get none) :=
    .bind (.emit (region.returnAddress.blank_pushActions none _)) fun _ =>
      .bind (.pushSkipTo _) fun _ =>
      .bind .position fun continuation => .bind (.noteCall index continuation) fun _ =>
        .answer (region.result.blank_get none)
  have given : Mirrors before before
      ((region.argumentTemps.zip arguments).forM fun p => Lower.emit (p.1.set p.2 none []))
      (((blank region.argumentTemps).zip (blank arguments)).forM fun p =>
        Lower.emit (p.1.set p.2 none [])) :=
    forM_zip (fun p : IndexedVar × Element => Lower.emit (p.1.set p.2 none []))
      (fun temp argument => .emit (temp.blank_set none argument [])) rfl arguments
  have pushed : Mirrors before before
      ((region.params.zip region.argumentTemps).forM fun p =>
        Lower.emit (p.1.pushActions (p.2.get none) none))
      (((blank region.params).zip (blank region.argumentTemps)).forM fun p =>
        Lower.emit (p.1.pushActions (p.2.get none) none)) :=
    forM_zip (fun p : RecursiveVar × IndexedVar => Lower.emit (p.1.pushActions (p.2.get none) none))
      (fun param temp => .pushTemp param temp) rfl region.argumentTemps
  obtain ⟨key, bodyStart, params, this, returnAddress, argumentTemps, thisTemp, result,
    callSites⟩ := region
  refine .bind given fun _ => ?_
  -- the object is passed on where the region keeps one
  cases thisTemp with
  | none =>
    refine .bind pushed fun _ => ?_
    cases this <;> exact last
  | some temp =>
    cases this with
    | none =>
      cases receiver with
      | none => exact .bind pushed fun _ => last
      | some receiver =>
        exact .bind (.emit (temp.blank_set none receiver [])) fun _ => .bind pushed fun _ => last
    | some this =>
      cases receiver with
      | none => exact .bind pushed fun _ => .bind (.pushTemp this temp) fun _ => last
      | some receiver =>
        exact .bind (.emit (temp.blank_set none receiver [])) fun _ => .bind pushed fun _ =>
          .bind (.pushTemp this temp) fun _ => last

/-- What fails at once does so without slots. -/
theorem fails {α β : Type} [Blank α] {x : Except LowerError β} {f f' : β → Lower α} {behind : Nat}
    {e : LowerError} (failed : x = .error e) (same : blank e = e) :
    Mirrors before behind (liftM x >>= f) (liftM x >>= f') := by
  subst failed
  intro outside s deferred fit
  rw [run_bind, run_bind, run_lift, run_lift]
  have ended : Mirrored (α := α) (outside + behind) s deferred (some (.error e, s))
      (some (.error (blank e), s.blanked deferred)) := .error fit e
  rwa [same] at ended

instance : Blank Source.MethodDecl := ⟨id⟩

/-- A call means the same function. -/
theorem resolveCallee (className : Option String) (method : String) :
    Mirrors before before (Lower.resolveCallee className method)
      (Lower.resolveCallee className method) := by
  refine .get fun s deferred classless => ?_
  cases className with
  | none =>
    refine .bind (.lift (?_ : blank (s.session.findFunction method) =
      s.session.findFunction method)) fun decl =>
      .pure (Callee.mk method decl false)
    unfold Session.findFunction
    split <;> rfl
  | some className =>
    refine .fails (e := .defect (.unknownClass className)) ?_ rfl
    rw [classless]
    rfl

theorem fieldVar (className field : String) (handle : Element) :
    Mirrors before before (Lower.fieldVar className field handle)
      (Lower.fieldVar className field (blank handle)) := by
  refine .get fun s deferred classless => .fails (e := .defect (.unknownClass className)) ?_ rfl
  rw [classless]
  rfl

theorem staticVar (className field : String) :
    Mirrors before before (Lower.staticVar className field) (Lower.staticVar className field) := by
  refine .get fun s deferred classless => .fails (e := .defect (.unknownClass className)) ?_ rfl
  rw [classless]
  rfl

/-- Without classes no instance is made on either side. -/
theorem expandNew (className : String) (constructorIndex : Nat) (arguments : List Element) :
    Mirrors before before (Lower.expandNew into className constructorIndex arguments)
      (Lower.expandNew into className constructorIndex (blank arguments)) := by
  refine .get fun s deferred classless => .fails (e := .defect (.unknownClass className)) ?_ rfl
  rw [classless]
  rfl

/-- The region of a method is found at the same index. -/
theorem blank_findRegion? (regions : List Region) (key : String) :
    findRegion? (blank regions) key = blank (findRegion? regions key) := by
  have index : (blank regions).findIdx? (fun region => region.key == key) =
      regions.findIdx? fun region => region.key == key := List.findIdx?_map ..
  rw [findRegion?, findRegion?, index]
  cases regions.findIdx? fun region => region.key == key with
  | none => rfl
  | some i =>
    show (List.map blank regions)[i]?.map _ = _
    rw [List.getElem?_map]
    dsimp only
    cases regions[i]? <;> rfl

/-- The number of arguments is checked alike. -/
theorem checkArity (callee : Callee) (arguments : Nat) :
    Mirrors before before (Lower.checkArity callee arguments)
      (Lower.checkArity callee arguments) := by
  unfold Lower.checkArity
  exact .ite .rfl (.throw rfl) (.pure ())

/-- A call is expanded alike. -/
theorem expandCall (bodies : into.Mirrors) (callee : Callee)
    (receiver : Option Element) (arguments : List Element) :
    Mirrors 1 1 (Lower.expandCall into callee receiver arguments)
      (Lower.expandCall into callee (blank receiver) (blank arguments)) := by
  refine .get fun s deferred _ => ?_
  have region : findRegion? (s.blanked deferred).regions callee.key =
    blank (findRegion? s.regions callee.key) :=
    blank_findRegion? s.regions callee.key
  have open' : ((s.blanked deferred).frames.any fun frame => frame.method == some callee.key) =
      s.frames.any fun frame => frame.method == some callee.key := List.any_map
  dsimp only
  rw [region, open']
  refine .ite .rfl ?_ (.ite .rfl (.bind (.throw rfl) fun e => .materialize e) ?_)
  · cases findRegion? s.regions callee.key with
    | none => exact .bind (.expandRegion bodies _ _ _ _ _) fun e => .materialize e
    | some found => exact .bind (.callRegion found.1 found.2 _ _) fun e => .materialize e
  · exact .bind (.temp _) fun result => .bind (.expandBody bodies _ _ _ _ _ (some result)) fun _ =>
      .bind (.answer (result.blank_get none)) fun e => .materialize e

/-! ### Expressions -/

/-- The arguments of a call come behind its object. -/
theorem callWith (bodies : into.Mirrors) (callee : Callee) {arguments : List Expr}
    (same : Mirrors 1 1 (lowerExprs into arguments) (lowerExprs into arguments))
    (receiver : Option Element) :
    Mirrors 1 1 (lowerExprs into arguments >>= Lower.expandCall into callee receiver)
      (lowerExprs into arguments >>= Lower.expandCall into callee (blank receiver)) :=
  .bind same fun arguments => .expandCall bodies callee receiver arguments

mutual

/-- An expression is lowered alike, whatever it calls. -/
theorem expr (bodies : into.Mirrors) :
    (e : Expr) → Mirrors 1 1 (lowerExpr into e) (lowerExpr into e)
  | .number _ | .bool _ | .currentActor => by
    rw [lowerExpr]
    exact .pure _
  | .array items => by
    rw [lowerExpr]
    exact .bind (exprs bodies items) fun items => .answer (Element.blank_array items)
  | .var name | .this => by
    rw [lowerExpr]
    exact .bind (.lookup _) fun v => .answer v.blank_get
  | .index array index => by
    rw [lowerExpr]
    exact .bind (expr bodies array) fun array => .bind (expr bodies index) fun index =>
      .pure (Element.itemAt array index)
  | .field object className field => by
    rw [lowerExpr]
    exact .bind (expr bodies object) fun _ => .bind (.fieldVar _ _ _) fun v =>
      .answer (v.blank_get none)
  | .staticField className field => by
    rw [lowerExpr]
    exact .bind (.staticVar _ _) fun v => .answer (v.blank_get none)
  | .actorVar actor name => by
    rw [lowerExpr]
    exact .bind (.actorVar name) fun v => .bind (expr bodies actor) fun actor =>
      .answer (v.blank_getFor (some actor))
  | .binary op lhs rhs => by
    rw [lowerExpr]
    exact .bind (expr bodies lhs) fun lhs => .bind (expr bodies rhs) fun rhs =>
      .answer (Element.blank_binary op lhs rhs)
  | .not inner => by
    rw [lowerExpr]
    exact .bind (expr bodies inner) fun e => .answer e.blank_negate
  | .negate inner => by
    rw [lowerExpr]
    exact .bind (expr bodies inner) fun e => .pure ((Element.ofNat 0).subtract e)
  | .length inner => by
    rw [lowerExpr]
    exact .bind (expr bodies inner) fun e => .pure (Element.countOf e)
  | .new className constructorIndex arguments => by
    rw [lowerExpr]
    exact .bind (exprs bodies arguments) fun arguments => .expandNew _ _ arguments
  | .call className method none arguments => by
    rw [lowerExpr]
    refine .bind (.resolveCallee _ _) fun callee => .bind (.checkArity callee _) fun _ => ?_
    have rest := callWith bodies callee (exprs bodies arguments)
    exact .ite .rfl (.bind (.map (.lookup _) fun v => congrArg some v.blank_get) rest)
      (.bind (.pure none) rest)
  | .call className method (some object) arguments => by
    rw [lowerExpr]
    refine .bind (.resolveCallee _ _) fun callee => .bind (.checkArity callee _) fun _ => ?_
    have rest := callWith bodies callee (exprs bodies arguments)
    exact .ite .rfl (.bind (.map (expr bodies object) fun _ => rfl) rest) (.bind (.pure none) rest)

/-- So is a row of expressions. -/
theorem exprs (bodies : into.Mirrors) :
    (es : List Expr) → Mirrors 1 1 (lowerExprs into es) (lowerExprs into es)
  | [] => by
    rw [lowerExprs]
    exact .pure _
  | e :: es => by
    rw [lowerExprs]
    exact .bind (expr bodies e) fun first => .bind (exprs bodies es) fun rest =>
      .pure (first :: rest)

end

theorem optional (bodies : into.Mirrors) (e : Option Expr) :
    Mirrors 1 1 (e.mapM (lowerExpr into)) (e.mapM (lowerExpr into)) := by
  cases e with
  | none => exact .pure none
  | some e => exact .map (expr bodies e) fun _ => rfl

/-! ### Statements -/

/-- What an assignment combines is the same up to slots. -/
theorem blank_combine (op : AssignOp) (current : Element) (index : List Element) (value : Element) :
    blank (combine op current index value) = combine op (blank current) (blank index)
      (blank value) := by
  unfold combine
  split
  · rfl
  · rw [Element.blank_binary, IndexedVar.blank_descend]

/-- An assignment is made alike. -/
theorem assign (bodies : into.Mirrors) (target : Place)
    (index : List Element) (op : AssignOp) (value : Expr) :
    Mirrors 1 1 (Lower.assign into target index op value)
      (Lower.assign into target (blank index) op value) := by
  cases target with
  | var name =>
    refine .bind (.lookup name) fun v => .bind (expr bodies value) fun value =>
      .bind (.lift ?_) fun actions => .emit rfl
    rw [v.blank_set, blank_combine, v.blank_get]
  | field object className field =>
    refine .bind (expr bodies object) fun handle => .bind (.fieldVar _ _ handle) fun v =>
      .bind (expr bodies value) fun value => .emit ?_
    rw [v.blank_set none, blank_combine, v.blank_get none]
    rfl
  | staticField className field =>
    refine .bind (.staticVar _ _) fun v => .bind (expr bodies value) fun value => .emit ?_
    rw [v.blank_set none, blank_combine, v.blank_get none]
    rfl
  | actorVar actor name =>
    refine .bind (.actorVar name) fun v => .bind (expr bodies actor) fun actor =>
      .bind (expr bodies value) fun value => .bind (.lift ?_) fun actions => .emit rfl
    rw [v.blank_setFor, blank_combine, v.blank_getFor]
    rfl

/-- There are no instances to delete. -/
theorem delete (bodies : into.Mirrors) (object : Expr) (className : String) :
    Mirrors 1 1 (Lower.delete into object className) (Lower.delete into object className) := by
  refine .bind (expr bodies object) fun handle => .bind (.hiddenName _) fun name =>
    .bind (.declare name (some handle) false) fun v => .get fun s deferred classless => ?_
  have unknown (s : UnitState) (handle : Element) :
    run (onStorage (ClassStorage.release .empty className handle)) s =
      some (.error (.defect (.unknownClass className)), s) := rfl
  intro outside t later fit
  rw [show (s.blanked deferred).session.classes = s.session.classes from rfl, classless, unknown,
    unknown]
  exact .error fit _

/-- A condition is tested in a scope of its own on both sides. -/
theorem openCondition (bodies : into.Mirrors) (condition : Expr) :
    Mirrors 1 2 (Lower.openCondition into condition) (Lower.openCondition into condition) :=
  .bind .openScope fun _ => (expr bodies condition).deeper

theorem closeCondition : Mirrors (before + 1) before Lower.closeCondition Lower.closeCondition := by
  refine .get fun s deferred _ => .bind .closeScope fun _ => .answer ?_
  rw [UnitState.pendingPops_blanked, s.length_scopes_blanked]

/-- A branch is opened alike. -/
theorem openArm (bodies : into.Mirrors) (condition : Expr) :
    Mirrors 1 1 (Lower.openArm into condition) (Lower.openArm into condition) := by
  refine .bind (.openCondition bodies condition) fun e => .get fun s deferred _ =>
    .bind (.lift (IfBlock.blank_setup _ s.list e)) fun p =>
      .bind (.modifyList fun _ => rfl) fun _ =>
      .bind .closeCondition fun tail => .pure (p.1, tail)

/-- It is closed alike. -/
theorem closeArm (block : IfBlock) (tail : List Action) (chain : IfChain) (more : Bool) :
    Mirrors before before (Lower.closeArm block tail chain more)
      (Lower.closeArm block (blank tail) chain more) := by
  have rest {last : Lower IfChain} (hlast : Mirrors before before last last) :
    Mirrors before before (do
        let finished ← (block.finish (← MonadState.get).list : Except LowerError _)
        Lower.modifyList fun _ => finished.2
        Lower.emit tail
        last) (do
        let finished ← (block.finish (← MonadState.get).list : Except LowerError _)
        Lower.modifyList fun _ => finished.2
        Lower.emit (blank tail)
        last) :=
    .get fun s _ _ => .bind (.lift (block.blank_finish s.list)) fun _ =>
      .bind (.modifyList fun _ => rfl) fun _ =>
      .bind (.emit rfl) fun _ => hlast
  unfold Lower.closeArm
  dsimp only
  rw [isEmpty_blank]
  refine .ite .rfl (.get fun s deferred _ => ?_) (.ite .rfl (rest (.pure chain))
    (.bind .pushSkip fun skip => rest (.bind (.resolveHere skip) fun _ => .pure chain)))
  rw [show (s.blanked deferred).list = blank s.list from rfl, ← chain.blank_skipToEnd]
  exact .bind (.modifyList fun _ => rfl) fun _ => rest (.pure _)

theorem closeChain (chain : IfChain) :
    Mirrors before before (Lower.closeChain chain) (Lower.closeChain chain) :=
  .get fun s _ _ => .bind (.lift (chain.blank_finish s.list)) fun _ => .modifyList fun _ => rfl

/-- A loop is opened alike. -/
theorem openLoop (bodies : into.Mirrors) (kind : LoopKind) (condition : Expr) :
    Mirrors 1 1 (Lower.openLoop into kind condition)
      (Lower.openLoop into (blank kind) condition) := by
  refine .get fun s deferred _ => ?_
  rw [s.length_scopes_blanked]
  exact .bind (.onLoop (.new kind) (LoopBlock.mirrors_setup _)) fun block =>
    .bind (.openCondition bodies condition)
    fun e => .bind (.onLoop block (LoopBlock.mirrors_guard (some e))) fun block =>
      .bind .closeCondition fun tail =>
      .pure (block, tail)

/-- It is closed alike. -/
theorem closeLoop (block : LoopBlock) (tail : List Action) :
    Mirrors before before (Lower.closeLoop block tail)
      (Lower.closeLoop (blank block) (blank tail)) :=
  .discard (.onLoop block (LoopBlock.mirrors_finish tail))

/-- So is one over an array opened. -/
theorem openForEach (index : Option String) (array : Element) :
    Mirrors 1 1 (Lower.openForEach index array) (Lower.openForEach index (blank array)) := by
  have rest (name : String) : Mirrors 1 1 (openForEachAt name array)
    (openForEachAt name (blank array)) := by
    refine .bind (.declare name none false) fun index => .get fun s deferred _ => ?_
    rw [s.length_scopes_blanked]
    refine .bind (.onLoop (.new (.forEach array index)) (LoopBlock.mirrors_setup _)) fun block =>
      .bind (.onLoop block (LoopBlock.mirrors_guard none)) fun block => ?_
    obtain ⟨kind, stage, start, exit, breaks⟩ := block
    cases kind with
    | «while» | «for» => exact .throw rfl
    | forEach array index =>
      refine .answer ?_
      rw [← index.blank_get]
      rfl
  cases index with
  | none => exact .bind (.hiddenName _) fun name => rest name
  | some name => exact rest name

theorem leaveLoop (depth : UInt32) (exit : String)
    (wait : LoopStack → (floor skip : Nat) → Except LowerError LoopStack)
    (same : ∀ loops floor skip, blank (wait loops floor skip) = wait loops floor skip) :
    Mirrors before before (Lower.leaveLoop depth exit wait) (Lower.leaveLoop depth exit wait) :=
  .bind .frame fun frame => .get fun s _ _ =>
    .bind (.lift (s.loops.blank_frame depth frame.loopFloor exit))
    fun target => .bind (.unwindTo target.scopeDepth) fun _ => .bind .pushSkip fun skip =>
      .get fun s _ _ =>
      .bind (.lift (same s.loops frame.loopFloor skip)) fun _ =>
        .change (fun _ _ => rfl) fun _ => ⟨rfl, rfl, rfl, rfl⟩

theorem addReturn (skip : Nat) :
    Mirrors before before (Lower.addReturn skip) (Lower.addReturn skip) := by
  refine .replace fun outside s deferred fit => ?_
  cases found : s.frames with
  | nil =>
    have found' : (s.blanked deferred).frames = [] := congrArg blank found
    simp only [found']
    exact .error fit _
  | cons frame rest =>
    have found' : (s.blanked deferred).frames = blank frame :: blank rest := congrArg blank found
    simp only [found']
    exact .aside
      (t := { s with frames := { frame with returns := frame.returns ++ [skip] } :: rest })
      fit rfl rfl rfl rfl (.ok ())

theorem leaveFrame (value : Option Element) :
    Mirrors before before (Lower.leaveFrame value) (Lower.leaveFrame (blank value)) := by
  refine .bind .frame fun frame => ?_
  have rest : Mirrors before before (do
        Lower.unwindTo frame.scopeDepth
        Lower.addReturn (← Lower.pushSkip)) (do
        Lower.unwindTo frame.scopeDepth
        Lower.addReturn (← Lower.pushSkip)) :=
    .bind (.unwindTo _) fun _ => .bind .pushSkip fun skip => .addReturn skip
  obtain ⟨method, lookupFloor, scopeDepth, loopFloor, recursive, returns, result⟩ := frame
  cases value with
  | none => exact rest
  | some value =>
    cases result with
    | none => exact rest
    | some result => exact .bind (.emit (result.blank_set none value [])) fun _ => rest

mutual

theorem stmt (bodies : into.Mirrors) :
    (s : Stmt) → Mirrors 1 1 (lowerStmt into s) (lowerStmt into s)
  | .mk k span => by
    rw [lowerStmt]
    exact .located span (kind bodies k)

theorem kind (bodies : into.Mirrors) :
    (k : StmtKind) → Mirrors 1 1 (lowerKind into k) (lowerKind into k)
  | .define name initial recursive => by
    rw [lowerKind]
    exact .bind (optional bodies initial) fun value => .discard (.declare name value recursive)
  | .assign target index op value => by
    rw [lowerKind]
    exact .bind (exprs bodies index) fun index => .assign bodies target index op value
  | .cond branches none => by
    rw [lowerKind]
    exact .bind (arms bodies _ _ branches) fun chain => .closeChain chain
  | .cond branches (some body) => by
    rw [lowerKind]
    exact .bind (arms bodies _ _ branches) fun chain =>
      .bind (.inScope (stmts bodies body).deeper) fun _ =>
      .closeChain chain
  | .while condition body => by
    rw [lowerKind]
    exact .bind (.openLoop bodies .while condition) fun opened =>
      .bind (.inScope (stmts bodies body).deeper) fun _ =>
      .closeLoop opened.1 opened.2
  | .for start condition step body => by
    -- behind the first statement, if there is one
    have rest : Mirrors 1 1 (do
        let (block, tail) ← Lower.openLoop into .for condition
        Lower.inScope (lowerStmts into body)
        let block ← Lower.onLoop block LoopBlock.epilogue
        match step with
        | some s => Lower.inScope (lowerStmt into s)
        | none => Pure.pure ()
        Lower.closeLoop block tail) (do
        let (block, tail) ← Lower.openLoop into .for condition
        Lower.inScope (lowerStmts into body)
        let block ← Lower.onLoop block LoopBlock.epilogue
        match step with
        | some s => Lower.inScope (lowerStmt into s)
        | none => Pure.pure ()
        Lower.closeLoop block tail) := by
      refine .bind (.openLoop bodies .for condition) fun opened =>
        .bind (.inScope (stmts bodies body).deeper) fun _ =>
        .bind (.onLoop opened.1 LoopBlock.mirrors_epilogue) fun block => ?_
      cases step with
      | none => exact .closeLoop block opened.2
      | some s => exact .bind (.inScope (stmt bodies s).deeper) fun _ => .closeLoop block opened.2
    rw [lowerKind]
    refine .inScope ?_
    cases start with
    | none => exact rest.deeper
    | some s => exact .bind (stmt bodies s).deeper fun _ => rest.deeper
  | .forEach element index array body => by
    rw [lowerKind]
    exact .bind (expr bodies array) fun array =>
      .inScope (.bind (Mirrors.openForEach index array).deeper fun opened =>
      .bind (.inScope (.bind (.bindName element (.reference opened.2)) fun _ =>
        (stmts bodies body).deeper.deeper))
        fun _ => .closeLoop opened.1 [])
  | .break depth => by
    rw [lowerKind]
    exact .leaveLoop depth _ _ fun loops floor skip => loops.blank_addBreak depth floor skip
  | .continue depth => by
    rw [lowerKind]
    exact .leaveLoop depth _ _ fun loops floor skip => loops.blank_addContinue depth floor skip
  | .return value => by
    rw [lowerKind]
    exact .bind (optional bodies value) fun value => .leaveFrame value
  | .delete object className => by
    rw [lowerKind]
    exact .delete bodies object className
  | .block body => by
    rw [lowerKind]
    exact .inScope (stmts bodies body).deeper
  | .expr value => by
    rw [lowerKind]
    exact .discard (expr bodies value)

theorem stmts (bodies : into.Mirrors) :
    (body : List Stmt) → Mirrors 1 1 (lowerStmts into body) (lowerStmts into body)
  | [] => by
    rw [lowerStmts]
    exact .pure ()
  | s :: rest => by
    rw [lowerStmts]
    exact .bind (stmt bodies s) fun _ => stmts bodies rest

theorem arms (bodies : into.Mirrors) (more : Bool) (chain : IfChain) :
    (branches : List Branch) →
      Mirrors 1 1 (lowerBranches into more chain branches) (lowerBranches into more chain branches)
  | [] => by
    rw [lowerBranches]
    exact .pure chain
  | .mk condition body :: rest => by
    rw [lowerBranches]
    exact .bind (.openArm bodies condition) fun opened =>
      .bind (.inScope (stmts bodies body).deeper) fun _ =>
      .bind (.closeArm opened.1 opened.2 chain _) fun chain => arms bodies more chain rest

end

theorem expander : (depth : Nat) → (SkipCode.expander depth).Mirrors
  | 0 => fun _ => .endless
  | depth + 1 => fun body => .inScope (stmts (expander depth) body).deeper

theorem finish : Mirrors before before Lower.finish Lower.finish := by
  refine .get fun s deferred _ => ?_
  have noScope : (s.blanked deferred).scopes.isEmpty = s.scopes.isEmpty := isEmpty_blank _
  have noFrame : (s.blanked deferred).frames.isEmpty = s.frames.isEmpty := isEmpty_blank _
  dsimp only
  rw [noScope, noFrame, s.length_scopes_blanked, s.length_frames_blanked,
    show (s.blanked deferred).list = blank s.list from rfl, ActionList.check_blank]
  have open' (e : LowerError) (h : blank e = e) :
    Mirrors before before (MonadExcept.throw e : Lower Unit)
      (MonadExcept.throw e) := .throw h
  refine .ite .rfl (.bind (open' _ rfl) fun _ => ?_) ?_ <;>
    cases s.list.check with
    | ok _ => exact .pure s.list
    | error e => exact .throw rfl

/-- A unit does without slots what it does with them. -/
theorem unitBody {body : Lower Unit} (hbody : Mirrors 1 1 body body) :
    Mirrors 0 0 (Lower.unitBody body) (Lower.unitBody body) :=
  .bind (.pushFrame unitFrame) fun _ => .bind (.inScope hbody) fun _ =>
    .bind .closeFrame fun _ => .finish

end Lower.Mirrors

end SkipCode
