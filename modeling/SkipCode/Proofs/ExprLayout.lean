import SkipCode.Proofs.Blocks

/-!
# Lowered code in the finished list

Whenever lowering succeeds without an exhaustion, what it wrote is the code of a derivation, laid
between the states before and after (`yields_expr`, `yields_stmt` and their kin). The induction is
on the source inside a body and on the depth of the expander from body to body.
-/

namespace SkipCode

open Lower
open Source (AssignOp Branch Expr Place Stmt StmtKind)

/-- Whatever a successful run writes is the code of its task. -/
def Yields {α : Type} (m : Lower α) (task : Task) (out : α → List Element) : Prop :=
  ∀ s a s', run m s = some (.ok a, s') → s'.deferred = [] →
    ∃ c, Lowers task s c (out a) s' ∧ Laid s c s'

/-- The bodies that an expander lowers. -/
structure Expander.Yields (into : Expander) : Prop where
  block : ∀ body, SkipCode.Yields (into.block body) (.block body) fun _ => []
  initial : ∀ e, SkipCode.Yields (into.initial e) (.expr e) fun x => [x]

/-- What is clean behind a piece was clean before it. -/
theorem Lowers.clean {task : Task} {s s' : UnitState} {c : Code} {xs : List Element}
    (h : Lowers task s c xs s') (clean : s'.deferred = []) : s.deferred = [] :=
  h.steady.grows.deferred clean

namespace Lower

variable {α : Type} {s s' u : UnitState}

/-! ## Plain steps -/

/-- A plain step emits something. -/
theorem emits_of_plain {m : Lower α} (plain : Plain m) {a : α} (h : run m s = some (.ok a, s'))
    (clean : s'.deferred = []) : ∃ actions, Emits m s actions a s' := by
  obtain ⟨actions, e⟩ := plain s a s' h
  exact ⟨actions, h, e, clean⟩

/-- A silent one emits nothing. -/
theorem emits_of_silent {m : Lower α} (silent : Silent m) {a : α}
    (h : run m s = some (.ok a, s')) (clean : s'.deferred = []) : Emits m s [] a s' :=
  ⟨h, silent s a s' h, clean⟩

/-- What is emitted is laid out. -/
theorem Emits.laid {m : Lower α} {actions : List Action} {a : α} (h : Emits m s actions a s') :
    Laid s (.acts actions) s' := .acts h.extends'

/-- Before what is emitted nothing was deferred. -/
theorem Emits.before {m : Lower α} {actions : List Action} {a : α} (h : Emits m s actions a s') :
    s.deferred = [] := h.extends'.deferred h.clean

/-- A scope that is closed pops its stacks. -/
theorem closes_of_run (h : run closeScope s = some (.ok (), s')) (clean : s'.deferred = []) :
    ∃ pops, Closes s pops s' := by
  obtain ⟨scope, rest, σ, e, freed, rfl⟩ := run_closeScope_ok h
  exact ⟨scopePops scope, ⟨scope, rest, σ, e, rfl, freed, rfl⟩, clean⟩

theorem Closes.before {pops : List Action} (h : Closes s pops s') : s.deferred = [] := by
  have clean := h.clean
  obtain ⟨_, _, _, -, -, -, rfl⟩ := h.closed
  exact clean

/-- A step in a scope of its own runs between opening and closing it. -/
theorem run_inScope_ok {m : Lower α} {a : α} :
    run (inScope m) s = some (.ok a, s') ↔
      ∃ u, run m s.opened = some (.ok a, u) ∧ run closeScope u = some (.ok (), s') := by
  simp only [inScope, run_bind_ok, run_openScope, run_pure, Option.some.injEq, Prod.mk.injEq,
    Except.ok.injEq]
  constructor
  · rintro ⟨_, _, ⟨-, rfl⟩, b, u, h, _, v, h', rfl, rfl⟩
    exact ⟨u, h, h'⟩
  · rintro ⟨u, h, h'⟩
    exact ⟨(), s.opened, ⟨trivial, rfl⟩, a, u, h, (), s', h', rfl, rfl⟩

/-- The positions are resolved one by one. -/
theorem run_resolveAll_ok {positions : List Nat}
    (h : run (positions.forM resolveHere) s = some (.ok (), s')) :
    ∃ l, positions.foldlM ActionList.resolveHere s.list = .ok l ∧ s' = s.withList l := by
  induction positions generalizing s with
  | nil =>
    cases h
    exact ⟨_, rfl, rfl⟩
  | cons p rest ih =>
    have h : run (resolveHere p >>= fun _ => rest.forM resolveHere) s = some (.ok (), s') := h
    obtain ⟨_, u, h₁, h₂⟩ := run_bind_ok.1 h
    obtain ⟨l, hl, rfl⟩ := run_resolveHere_ok.1 h₁
    obtain ⟨l', hl', rfl⟩ := ih h₂
    refine ⟨l', ?_, rfl⟩
    rw [List.foldlM_cons, hl]
    exact hl'

/-- At the end of a frame its returns lead there. -/
theorem run_closeFrame_ok (h : run closeFrame s = some (.ok (), s')) :
    ∃ frame frames list, s.frames = frame :: frames ∧
      frame.returns.foldlM ActionList.resolveHere s.list = .ok list ∧ s' = s.left list := by
  obtain ⟨_, _, ⟨⟩, h⟩ := run_bind_ok.1 h
  split at h
  · cases h
  · next frame frames e =>
    obtain ⟨_, u, h₁, h₂⟩ := run_bind_ok.1 h
    rw [run_set] at h₁
    cases h₁
    obtain ⟨l, hl, rfl⟩ := run_resolveAll_ok h₂
    refine ⟨frame, frames, l, e, hl, ?_⟩
    simp only [UnitState.left, UnitState.withList, e, List.tail_cons]

/-- A call that means something changes nothing. -/
theorem run_resolveCallee_ok {className : Option String} {method : String} {callee : Callee}
    (h : run (resolveCallee className method) s = some (.ok callee, s')) : s' = s := by
  obtain ⟨_, _, ⟨⟩, h⟩ := run_bind_ok.1 h
  cases className with
  | none =>
    obtain ⟨decl, u, h₁, h₂⟩ := run_bind_ok.1 h
    obtain ⟨-, rfl⟩ := run_lift_ok.1 h₁
    cases h₂
    rfl
  | some className =>
    obtain ⟨decl, u, h₁, h₂⟩ := run_bind_ok.1 h
    obtain ⟨-, rfl⟩ := run_lift_ok.1 h₁
    cases h₂
    rfl

/-- The number of arguments is that of the parameters. -/
theorem run_checkArity_ok {callee : Callee} {n : Nat}
    (h : run (checkArity callee n) s = some (.ok (), s')) :
    callee.decl.params.length = n ∧ s' = s := by
  unfold checkArity at h
  split at h
  · cases h
  · next e =>
    cases h
    exact ⟨not_not.1 e, rfl⟩

/-- A variable that is looked up, as a step that writes nothing. -/
theorem emits_lookup {name : String} {v : Variable} (h : run (lookup name) s = some (.ok v, s'))
    (clean : s'.deferred = []) : s' = s ∧ Emits (lookup name) s [] v s := by
  obtain rfl := run_lookup_ok h
  exact ⟨rfl, h, .refl _, clean⟩

end Lower

/-! ## Expressions -/

variable {into : Expander}

theorem yields_exprs_nil : Yields (pure ([] : List Element)) (.exprs []) id := by
  intro s a s' h _
  cases h
  exact ⟨_, .nil, .nothing _⟩

/-- A row yields what its first expression and then the others yield. -/
theorem yields_exprs_cons {e : Expr} {es : List Expr} {m : Lower Element}
    {ms : Lower (List Element)} (first : Yields m (.expr e) fun x => [x])
    (rest : Yields ms (.exprs es) id) {s u s' : UnitState} {x : Element} {xs : List Element}
    (h₁ : run m s = some (.ok x, u)) (h₂ : run ms u = some (.ok xs, s'))
      (clean : s'.deferred = []) :
    ∃ c, Lowers (.exprs (e :: es)) s c (x :: xs) s' ∧ Laid s c s' := by
  obtain ⟨d, lowers₂, laid₂⟩ := rest u xs s' h₂ clean
  obtain ⟨c, lowers₁, laid₁⟩ := first s x u h₁ (lowers₂.clean clean)
  exact ⟨_, .cons lowers₁ lowers₂, laid₁.seq laid₂⟩

/-- An expression with one operand. -/
theorem yields_one {e : Expr} {a : Expr} {m : Lower Element} {f : Element → Element}
    {build : List Element → Element} (node : nodeOf e = some ([a], build))
    (agree : ∀ x, build [x] = f x) (operand : Yields m (.expr a) fun x => [x]) :
    Yields (do return f (← m)) (.expr e) fun x => [x] := by
  intro s y s' h clean
  obtain ⟨x, u, h₁, h₂⟩ := run_bind_ok.1 h
  cases h₂
  obtain ⟨c, lowers, laid⟩ := yields_exprs_cons operand yields_exprs_nil h₁ rfl clean
  rw [← agree]
  exact ⟨c, .node node lowers, laid⟩

/-- An expression with two operands. -/
theorem yields_two {e : Expr} {a b : Expr} {m n : Lower Element} {f : Element → Element → Element}
    {build : List Element → Element} (node : nodeOf e = some ([a, b], build))
    (agree : ∀ x y, build [x, y] = f x y) (first : Yields m (.expr a) fun x => [x])
    (second : Yields n (.expr b) fun x => [x]) :
    Yields (do
      let x ← m
      let y ← n
      return f x y) (.expr e) fun x => [x] := by
  intro s z s' h clean
  obtain ⟨x, u, h₁, h₂⟩ := run_bind_ok.1 h
  obtain ⟨y, v, h₂, h₃⟩ := run_bind_ok.1 h₂
  cases h₃
  have rest : Yields (do return [← n]) (.exprs [b]) id := by
    intro s ys s' h clean
    obtain ⟨y, u, h₁, h₂⟩ := run_bind_ok.1 h
    cases h₂
    exact yields_exprs_cons second yields_exprs_nil h₁ rfl clean
  obtain ⟨c, lowers, laid⟩ := yields_exprs_cons first rest h₁
    (run_bind_ok.2 ⟨y, _, h₂, rfl⟩) clean
  rw [← agree]
  exact ⟨c, .node node lowers, laid⟩

/-! ## Calls -/

/-- The names of a call are bound by steps that declare. -/
theorem Lower.DeclareRules.bindCall {P : {α : Type} → Lower α → Prop} (rules : DeclareRules P)
    (receiver : Option Element) (params : List String) (arguments : List Element) :
    P (Lower.bindCall receiver params arguments) := by
  cases receiver with
  | none => exact rules.declareParams _ _
  | some receiver => exact rules.bind (rules.bindThis receiver) fun _ => rules.declareParams _ _

/-- A body is expanded in a frame and a scope of its own. -/
theorem expandBody_eq (key : String) (params : List String) (body : List Stmt)
    (receiver : Option Element) (arguments : List Element) (result : Option IndexedVar) :
    expandBody into key params body receiver arguments result = (do
      let frame ← expandedFrame (some key) result
      inScope (do
        pushFrame frame
        bindCall receiver params arguments
        into.block body)
      closeFrame) := by
  cases receiver <;> simp only [expandBody, bindCall, bind_assoc]

/-- Closes the body of a region and gives what its dispatch has to tell apart. -/
def closeRegion (address : IndexedVar) : Lower (List Nat) := do
  closeFrame
  let region ← popRegion
  emit (address.set (region.returnAddress.get none) none [])
  return region.callSites

/-- A region is expanded with its result, its address and its frame around its statements. -/
theorem expandRegion_eq (key : String) (params : List String) (body : List Stmt)
    (receiver : Option Element) (arguments : List Element) :
    expandRegion into key params body receiver arguments = (do
      let result ← temp "ret"
      let address ← temp "addr"
      let outer ← expandedFrame (some key) (some result)
      let sites ← inScope (do
        let region ← openRegion key params receiver arguments result
        pushFrame { outer with scopeDepth := outer.scopeDepth + 1, recursive := true }
        pushRegion region
        into.block body
        closeRegion address)
      dispatch address 0 sites
      return result.get none) := rfl

/-- The receiver is bound first, then the arguments. -/
theorem run_bindCall_ok {receiver : Option Element} {params : List String}
    {arguments : List Element} {frame : Frame} {m : Lower Unit} {s s' : UnitState} :
    run (do
        pushFrame frame
        match receiver with
        | some receiver => bindThis receiver
        | none => pure ()
        declareParams params arguments
        m) s = some (.ok (), s') ↔
      ∃ (_ : Unit) (u : UnitState),
        run (bindCall receiver params arguments) (s.entered frame) = some (.ok (), u) ∧
          run m u = some (.ok (), s') := by
  have enter (n : Lower Unit) :
      run (pushFrame frame >>= fun _ => n) s = run n (s.entered frame) := rfl
  cases receiver with
  | none =>
    rw [enter]
    exact run_bind_ok
  | some receiver =>
    rw [enter]
    simp only [bindCall, run_bind_ok]
    constructor
    · rintro ⟨a, u, h, b, v, h', h''⟩
      exact ⟨(), v, ⟨a, u, h, h'⟩, h''⟩
    · rintro ⟨_, v, ⟨a, u, h, h'⟩, h''⟩
      exact ⟨a, u, h, (), v, h', h''⟩

/-- A body yields its code in a frame. -/
theorem yields_body (bodies : into.Yields) (key : String) (params : List String) (body : List Stmt)
    (receiver : Option Element) (arguments : List Element) (result : Option IndexedVar) :
    Yields (expandBody into key params body receiver arguments result)
      (.body key params body receiver arguments result) fun _ => [] := by
  intro s _ s' h clean
  obtain ⟨_, _, ⟨⟩, h₁⟩ := run_bind_ok.1 h
  obtain ⟨_, s₃, h₂, hclose⟩ := run_bind_ok.1 h₁
  obtain ⟨frame', frames, list, found, resolved, rfl⟩ := run_closeFrame_ok hclose
  obtain ⟨s₂, h₃, hscope⟩ := run_inScope_ok.1 h₂
  obtain ⟨pops, closes⟩ := closes_of_run hscope clean
  obtain ⟨_, s₁, hbind, hbody⟩ := run_bindCall_ok.1 h₃
  obtain ⟨c, lowers, laid⟩ := bodies.block body s₁ () s₂ hbody closes.before
  obtain ⟨actions, binds⟩ :=
    emits_of_plain (Plain.rules.bindCall _ _ _) hbind (lowers.clean closes.before)
  have inner : Lowers (.body key params body receiver arguments result) s
      (.frame (.seq (.acts actions) (.seq c (.acts pops)))) [] (s₃.left list) :=
    .body list binds lowers closes
  have steady : ((s.entered (s.expanded (some key) result))).Steady s₃ :=
    .inScope (binds.extends'.steady.trans lowers.steady) closes
  have whole := binds.laid.seq (laid.seq (.closes closes))
  exact ⟨_, inner, Laid.frame (whole.congr rfl rfl rfl rfl rfl rfl rfl rfl) steady rfl found
    resolved⟩

/-- The end of a region tells its calls apart by their numbers. -/
theorem run_dispatch (address : IndexedVar) (number : Nat) (sites : List Nat) (s : UnitState) :
    run (dispatch address number sites) s =
      some (.ok (), s.withList (dispatchOn (address.get none) s.list number sites)) := by
  induction sites generalizing number s with
  | nil => rfl
  | cons site rest ih =>
    rw [dispatch, run_bind, run_emit]
    simp only
    rw [run_bind, run_modifyList]
    simp only
    rw [ih]
    rfl

/-- A region that is closed was the innermost. -/
theorem run_popRegion_ok {s s' : UnitState} {region : Region}
    (h : run popRegion s = some (.ok region, s')) :
    ∃ regions, s.regions = region :: regions ∧ s' = { s with regions } := by
  obtain ⟨_, _, ⟨⟩, h⟩ := run_bind_ok.1 h
  split at h
  · next region' regions e =>
    cases h
    exact ⟨regions, e, rfl⟩
  · cases h

/-- A region is opened with a stack for each parameter, for the receiver and for the return address.
-/
theorem run_openRegion_ok {key : String} {params : List String} {receiver : Option Element}
    {arguments : List Element} {result : IndexedVar} {s s' : UnitState} {region : Region}
    (h : run (openRegion key params receiver arguments result) s = some (.ok region, s')) :
    region.bodyStart = s'.list.length ∧ region.callSites = [] := by
  simp only [openRegion, run_bind_ok, run_position, run_pure, Option.some.injEq, Prod.mk.injEq,
    Except.ok.injEq] at h
  obtain ⟨_, _, -, _, _, -, _, _, -, _, _, -, _, _, -, _, _, -, _, _, ⟨rfl, rfl⟩, rfl, rfl⟩ := h
  exact ⟨rfl, rfl⟩

/-- The region of an outermost call, up to the element of its result. -/
theorem yields_region (bodies : into.Yields) {callee : Callee} {receiver : Option Element}
    {arguments : List Element} {s t s' : UnitState} {actions : List Action} {y x : Element}
    (recursive : callee.decl.recursive = true) (closed : findRegion? s.regions callee.key = none)
    (h : run (expandRegion into callee.key callee.decl.params callee.decl.body receiver
      arguments) s =
      some (.ok y, t)) (kept : Emits (materialize y) t actions x s') :
    ∃ c, Lowers (.call callee receiver arguments) s c [x] s' ∧ Laid s c s' := by
  -- the steps, from the outside in
  obtain ⟨result, s₁, hret, h₁⟩ := run_bind_ok.1 h
  obtain ⟨address, s₂, haddr, h₂⟩ := run_bind_ok.1 h₁
  obtain ⟨_, _, ⟨⟩, h₃⟩ := run_bind_ok.1 h₂
  obtain ⟨sites, s₅, h₄, hend⟩ := run_bind_ok.1 h₃
  obtain ⟨_, t', hdispatch, hresult⟩ := run_bind_ok.1 hend
  rw [run_dispatch] at hdispatch
  cases hdispatch
  cases hresult
  obtain ⟨v, h₅, hscope⟩ := run_inScope_ok.1 h₄
  obtain ⟨pops, closes⟩ := closes_of_run hscope kept.before
  obtain ⟨region, s₃, hopen, h₆⟩ := run_bind_ok.1 h₅
  obtain ⟨_, _, ⟨⟩, h₇⟩ := run_bind_ok.1 h₆
  obtain ⟨_, _, ⟨⟩, h₈⟩ := run_bind_ok.1 h₇
  obtain ⟨_, s₄, hbody, h₉⟩ := run_bind_ok.1 h₈
  obtain ⟨_, w, hframe, h₁₀⟩ := run_bind_ok.1 h₉
  obtain ⟨frame', frames, list, found, resolved, rfl⟩ := run_closeFrame_ok hframe
  obtain ⟨closing, _, hpop, h₁₁⟩ := run_bind_ok.1 h₁₀
  obtain ⟨regions, opened, rfl⟩ := run_popRegion_ok hpop
  obtain ⟨_, _, ⟨⟩, hlast⟩ := run_bind_ok.1 h₁₁
  cases hlast
  have opened : s₄.regions = closing :: regions := opened
  -- what they become, from the last to the first
  obtain ⟨c, lowers, laid⟩ := bodies.block callee.decl.body _ () s₄ hbody closes.before
  obtain ⟨entry, enters⟩ := emits_of_plain (Plain.rules.openRegion _ _ _ _ _) hopen
    (lowers.clean closes.before)
  have temps := emits_of_silent (.temp "addr") haddr enters.before
  have temps' := emits_of_silent (.temp "ret") hret temps.before
  obtain ⟨start, fresh⟩ := run_openRegion_ok hopen
  have finish : Laid { s₄.left list with regions }
      (.acts (address.set (closing.returnAddress.get none) none [] ++ pops)) s₅ := by
    have store : Laid { s₄.left list with regions }
        (.acts (address.set (closing.returnAddress.get none) none []))
        ({ s₄.left list with regions }.withList
          (list.extend (address.set (closing.returnAddress.get none) none []))) :=
      .extend (settled_set _ _ _ _) rfl rfl rfl rfl
    exact (store.seq (.closes closes)).merge
  have laidRegion := Laid.region (address.get none) enters.laid laid lowers.steady
    (by
      rw [enters.extends'.loops]
      rfl) start fresh found opened resolved finish
  exact ⟨_, .region list _ _ recursive closed temps' temps enters lowers opened closes kept,
    (temps'.laid.seq (temps.laid.seq
      (laidRegion.congr rfl rfl rfl rfl rfl rfl rfl rfl)).of_nothing).of_nothing.seq kept.laid⟩

/-- What is emitted for each of a row is emitted in order. -/
theorem run_emitAll {α : Type} (f : α → List Action) (l : List α) (s : UnitState) :
    run (l.forM fun x => emit (f x)) s = some (.ok (),
      s.withList (s.list.extend (l.flatMap f))) := by
  induction l generalizing s with
  | nil => rfl
  | cons x rest ih =>
    have e : run ((x :: rest).forM fun x => emit (f x)) s =
        run (rest.forM fun x => emit (f x)) (s.withList (s.list.extend (f x))) := rfl
    rw [e, ih, List.flatMap_cons, ← extend_append]
    rfl

/-- A call from inside a region saves its arguments, pushes them with its number, and skips back to
the start. -/
theorem run_callRegion (index : Nat) (region : Region) (receiver : Option Element)
    (arguments : List Element) (s : UnitState) :
    run (callRegion index region receiver arguments) s =
      some (.ok (region.result.get none),
        (noteCall s index
          (s.list.length + (callEntry region receiver arguments).length + 1)).withList
          ((s.list.extend (callEntry region receiver arguments)).pushSkipTo region.bodyStart)) := by
  have length (l : ActionList) (actions : List Action) (target : Nat) :
      ((l.extend actions).pushSkipTo target).length = l.length + actions.length + 1 := by
    rw [ActionList.length_pushSkipTo, ActionList.length_extend]
  have first (s : UnitState) := run_emitAll
    (fun p : IndexedVar × Element => p.1.set p.2 none []) (region.argumentTemps.zip arguments) s
  have second (s : UnitState) := run_emitAll
    (fun p : RecursiveVar × IndexedVar => p.1.pushActions (p.2.get none) none)
    (region.params.zip region.argumentTemps) s
  unfold callRegion
  rw [run_bind, first]
  simp only
  -- the arguments go to the temporaries, and from there on the stacks; so does a receiver
  rcases hthis : region.this with _ | this <;> rcases htemp : region.thisTemp with _ | temp <;>
    cases receiver <;>
    simp only [run_bind, second, run_emit, run_modifyList, run_position, run_modify, run_pure,
      noteCall, callEntry, UnitState.withList, extend_append, length, hthis, htemp,
      List.append_nil, List.append_assoc]

/-- Before it skips back it only writes. -/
theorem settled_callEntry (region : Region) (receiver : Option Element)
    (arguments : List Element) : Settled (callEntry region receiver arguments) := by
  refine .append (.append (.append (.append (.flatMap (fun _ => settled_set _ _ _ _) _) ?_)
    (.flatMap (fun _ => settled_push _ _ _) _)) ?_) (settled_push _ _ _)
  · split
    · exact settled_set _ _ _ _
    · exact .nil
  · split
    · exact settled_push _ _ _
    · exact .nil

/-- A call yields its body, its region, or the way back into one. -/
theorem yields_call (bodies : into.Yields) (callee : Callee) (receiver : Option Element)
    (arguments : List Element) :
    Yields (expandCall into callee receiver arguments) (.call callee receiver arguments)
      fun x => [x] := by
  intro s x s' h clean
  obtain ⟨_, _, ⟨⟩, h₁⟩ := run_bind_ok.1 h
  dsimp only at h₁
  cases hrec : callee.decl.recursive with
  | true =>
    rw [if_pos hrec] at h₁
    split at h₁
    · next index region found =>
      -- the region is open, so the call goes back into it
      obtain ⟨y, t, hresult, hkeep⟩ := run_bind_ok.1 h₁
      obtain ⟨actions, kept⟩ := emits_of_plain (Plain.rules.materialize y) hkeep clean
      rw [run_callRegion] at hresult
      cases hresult
      refine ⟨_, .reenter _ _ hrec found kept,
        (Laid.reenter (findRegion?_at found) ?_).seq kept.laid⟩
      exact settled_callEntry region receiver arguments
    · next closed =>
      obtain ⟨y, t, hresult, hkeep⟩ := run_bind_ok.1 h₁
      obtain ⟨actions, kept⟩ := emits_of_plain (Plain.rules.materialize y) hkeep clean
      exact yields_region bodies hrec closed hresult kept
  | false =>
    rw [if_neg (by simp [hrec])] at h₁
    split at h₁
    · -- a body that is being expanded already is refused
      cases h₁
    · obtain ⟨result, s₁, htemp, h₂⟩ := run_bind_ok.1 h₁
      obtain ⟨_, s₂, hbody, hkeep⟩ := run_bind_ok.1 h₂
      obtain ⟨actions, kept⟩ :=
        emits_of_plain (Plain.rules.materialize (result.get none)) hkeep clean
      obtain ⟨c, lowers, laid⟩ := yields_body bodies _ _ _ _ _ _ s₁ () s₂ hbody kept.before
      have temps := emits_of_silent (.temp "ret") htemp (lowers.clean kept.before)
      exact ⟨_, .inline hrec temps lowers kept, (temps.laid.seq laid).of_nothing.seq kept.laid⟩

/-! ## Instances -/

/-- Taking a handle looks for the first dead flag, writes the handle, and marks it. -/
theorem run_acquireHandle_ok {config : LowerConfig} {handle : Variable} {s t : ClassStorage}
    (h : Attempt.run (ClassStorage.acquireHandle config handle) s = (.ok (), t)) :
    ∃ table first next full mark, Acquires config handle table first next full mark ∧
      t.data.table = some table ∧
        t.list.toList = s.list.toList ++ acquireActions first next full mark ∧
          first.isSome = config.reuseHandles := by
  -- the new handle, the check and the mark, whether a freed handle is looked for before them or not
  have finish {table : IndexedVar} {next : List Action} {u : ClassStorage}
      (h : Attempt.run (do
        ClassStorage.emit next
        ClassStorage.emit [.skipIf (.compare handle.get .less (.ofNat config.classCapacity.toNat))
          (some 1), .abort]
        ClassStorage.emit ((← ClassStorage.handleTable).set (.ofNat 1) none [handle.get])) u =
          (.ok (), t)) (known : u.data.table = some table) :
      t.data.table = some table ∧ t.list.toList = u.list.toList ++ (next ++ [.skipIf
        (.compare handle.get .less (.ofNat config.classCapacity.toNat)) (some 1), .abort] ++
          table.set (.ofNat 1) none [handle.get]) := by
    obtain ⟨_, _, ⟨⟩, h₁⟩ := Attempt.run_bind_ok.1 h
    obtain ⟨_, _, ⟨⟩, h₂⟩ := Attempt.run_bind_ok.1 h₁
    obtain ⟨table', v, htable, h₃⟩ := Attempt.run_bind_ok.1 h₂
    obtain ⟨grows, same⟩ := ClassStorage.Keeps.handleTable _ _ _ htable
    have kept := grows.table table known
    have := kept
    rw [ClassStorage.run_handleTable_ok htable] at this
    cases this
    cases h₃
    exact ⟨kept, by simp [same]⟩
  obtain ⟨table, u, htable, h₁⟩ := Attempt.run_bind_ok.1 h
  obtain ⟨-, same⟩ := ClassStorage.Keeps.handleTable _ _ _ htable
  have known := ClassStorage.run_handleTable_ok htable
  obtain ⟨next, v, hnext, h₂⟩ := Attempt.run_bind_ok.1 h₁
  rw [Attempt.run_lift_ok] at hnext
  obtain ⟨hnext, rfl⟩ := hnext
  dsimp only at h₂
  split at h₂
  · next reuse =>
    obtain ⟨first, v, hfirst, h₃⟩ := Attempt.run_bind_ok.1 h₂
    rw [Attempt.run_lift_ok] at hfirst
    obtain ⟨hfirst, rfl⟩ := hfirst
    obtain ⟨_, _, ⟨⟩, h₄⟩ := Attempt.run_bind_ok.1 h₃
    obtain ⟨_, _, ⟨⟩, h₅⟩ := Attempt.run_bind_ok.1 h₄
    obtain ⟨kept, whole⟩ := finish h₅ known
    refine ⟨table, some (first, .compare handle.get .notEqual (.number (.ofInt (-1)))), next, _, _,
      ⟨hnext, ⟨hfirst, rfl⟩, rfl, rfl⟩, kept, ?_, reuse.symm⟩
    rw [whole]
    simp [acquireActions, same]
  · next always =>
    obtain ⟨kept, whole⟩ := finish h₂ known
    refine ⟨table, none, next, _, _, ⟨hnext, trivial, rfl, rfl⟩, kept, ?_, by simpa using always⟩
    rw [whole]
    simp [acquireActions, same]

/-- The stack of a field is written at the handle. -/
theorem run_fieldStack_ok {stack : Nat} {x this : Element} {s t : UnitState}
    (h : run (do emit ((← onStorage (ClassStorage.fieldStack stack)).set x none [this])) s =
      some (.ok (), t)) (clean : t.deferred = []) :
    ∃ v w, Emits (onStorage (ClassStorage.fieldStack stack)) s [] v w ∧
      t = w.withList (w.list.extend (v.set x none [this])) := by
  obtain ⟨v, w, hstack, hset⟩ := run_bind_ok.1 h
  cases hset
  exact ⟨v, w, emits_of_silent (.onStorage (.fieldStack _)) hstack clean, rfl⟩

/-- A field starts with what its initial value gives, or with the neutral value. -/
theorem run_field_ok (bodies : into.Yields) {this : Element} {stack : Nat} {initial : Option Expr}
    {s t : UnitState}
    (h : run (do
      let value ← match initial with
        | some e => into.initial e
        | none => pure .neutral
      emit ((← onStorage (ClassStorage.fieldStack stack)).set value none [this])) s =
        some (.ok (), t)) (clean : t.deferred = []) :
    ∃ c xs u v w, Lowers (.exprs initial.toList) s c xs u ∧ Laid s c u ∧
      Emits (onStorage (ClassStorage.fieldStack stack)) u [] v w ∧
      t = w.withList (w.list.extend (v.set (xs.head?.getD .neutral) none [this])) := by
  cases initial with
  | none =>
    obtain ⟨v, w, stored, rfl⟩ := run_fieldStack_ok h clean
    exact ⟨_, [], s, v, w, .nil, .nothing _, stored, rfl⟩
  | some e =>
    obtain ⟨x, u, hvalue, hset⟩ := run_bind_ok.1 h
    obtain ⟨v, w, stored, rfl⟩ := run_fieldStack_ok hset clean
    obtain ⟨c, lowers, laid⟩ :=
      yields_exprs_cons (bodies.initial e) yields_exprs_nil hvalue rfl stored.before
    exact ⟨c, [x], u, v, w, lowers, laid, stored, rfl⟩

/-- Actions behind a step on the storage that writes nothing itself. -/
theorem laid_stored {α : Type} {m : Lower α} {a : α} {s t : UnitState}
    (h : Emits m s [] a t) {actions : List Action} (settled : Settled actions) :
    Laid s (.acts actions) (t.withList (t.list.extend actions)) := by
  have store : Laid t (.acts actions) (t.withList (t.list.extend actions)) :=
    .extend settled rfl rfl rfl rfl
  exact (h.laid.seq store).of_nothing

/-- The fields of a class are yielded one by one. -/
theorem yields_fields (bodies : into.Yields) (this : Element) (fields : List (Nat × Option Expr)) :
    Yields (fields.forM fun (stack, initial) => do
      let value ← match initial with
        | some e => into.initial e
        | none => pure .neutral
      emit ((← onStorage (ClassStorage.fieldStack stack)).set value none [this]))
      (.fields this fields) fun _ => [] := by
  induction fields with
  | nil =>
    intro s _ s' h _
    cases h
    exact ⟨_, .fields_nil, .nothing _⟩
  | cons field rest ih =>
    obtain ⟨stack, initial⟩ := field
    intro s _ s' h clean
    obtain ⟨_, t, h₁, hrest⟩ := run_bind_ok.1 h
    obtain ⟨d, lowers₂, laid₂⟩ := ih t () s' hrest clean
    obtain ⟨c, xs, u, v, w, lowers₁, laid₁, stored, rfl⟩ :=
      run_field_ok bodies h₁ (lowers₂.clean clean)
    exact ⟨_, .fields_cons _ lowers₁ stored lowers₂,
      laid₁.seq ((laid_stored stored (settled_set _ _ _ _)).seq laid₂)⟩

/-- They are yielded in a frame of their own, in which the instance is known. -/
theorem yields_initials (bodies : into.Yields) (this : Element)
    (fields : List (Nat × Option Expr)) :
    Yields (initializeFields into this fields) (.initials this fields) fun _ => [] := by
  intro s _ s' h clean
  obtain ⟨_, _, ⟨⟩, h₁⟩ := run_bind_ok.1 h
  obtain ⟨_, s₂, h₂, hclose⟩ := run_bind_ok.1 h₁
  obtain ⟨frame', frames, list, found, resolved, rfl⟩ := run_closeFrame_ok hclose
  obtain ⟨s₁, h₃, hscope⟩ := run_inScope_ok.1 h₂
  obtain ⟨pops, closes⟩ := closes_of_run hscope clean
  obtain ⟨_, _, ⟨⟩, h₄⟩ := run_bind_ok.1 h₃
  obtain ⟨_, t, hbind, h₅⟩ := run_bind_ok.1 h₄
  obtain ⟨scope, rest, e, rfl⟩ := run_modifyScope_ok.1 hbind
  cases e
  obtain ⟨c, lowers, laid⟩ := yields_fields bodies this fields _ () s₁ h₅ closes.before
  have steady : (s.entered (s.expanded none none)).Steady s₂ := .inScope lowers.steady closes
  exact ⟨_, .initials list lowers closes, Laid.frame ((laid.seq (.closes closes)).congr rfl rfl rfl
    rfl rfl rfl rfl rfl) steady rfl found resolved⟩

/-- The steps by which an instance is made. -/
theorem run_expandNew_ok {className : String} {index : Nat} {arguments : List Element} {x : Element}
    {s t : UnitState} (h : run (expandNew into className index arguments) s = some (.ok x, t)) :
    ∃ constructor fields hidden s₁ handle s₂ layout s₃ s₄ s₅,
      s.session.classes.constructor className index = .ok constructor ∧
      fieldInitials s.session.classes className = .ok fields ∧
      run (hiddenName "new") s = some (.ok hidden, s₁) ∧
      run (declare hidden none false) s₁ = some (.ok handle, s₂) ∧
      s.session.classes.layout className = .ok layout ∧
      run (onStorage (ClassStorage.prepare layout)) s₂ = some (.ok (), s₃) ∧
      run (onStorage (ClassStorage.acquireHandle s.session.config handle)) s₃ = some (.ok (), s₄) ∧
      run (initializeFields into handle.get fields) s₄ = some (.ok (), s₅) ∧
      run (expandBody into s!"{className}.new#{index}" constructor.params constructor.body
        (some handle.get) arguments none) s₅ = some (.ok (), t) ∧ x = handle.get := by
  obtain ⟨_, _, ⟨⟩, h₁⟩ := run_bind_ok.1 h
  obtain ⟨constructor, _, hconstructor, h₂⟩ := run_bind_ok.1 h₁
  rw [run_lift_ok] at hconstructor
  obtain ⟨hconstructor, rfl⟩ := hconstructor
  split at h₂
  · -- another number of arguments is refused
    obtain ⟨_, _, h₃, -⟩ := run_bind_ok.1 h₂
    cases h₃
  obtain ⟨fields, _, hfields, h₃⟩ := run_bind_ok.1 h₂
  rw [run_lift_ok] at hfields
  obtain ⟨hfields, rfl⟩ := hfields
  -- what was looked up so far left the state as it is
  obtain ⟨hidden, s₁, hhidden, h₄⟩ := run_bind_ok.1 h₃
  obtain ⟨handle, s₂, hdeclare, h₅⟩ := run_bind_ok.1 h₄
  obtain ⟨layout, _, hlayout, h₆⟩ := run_bind_ok.1 h₅
  rw [run_lift_ok] at hlayout
  obtain ⟨hlayout, rfl⟩ := hlayout
  obtain ⟨_, s₃, hprepare, h₇⟩ := run_bind_ok.1 h₆
  obtain ⟨_, s₄, hacquire, h₈⟩ := run_bind_ok.1 h₇
  obtain ⟨_, s₅, hinitials, h₉⟩ := run_bind_ok.1 h₈
  obtain ⟨_, s₆, hbody, hreturn⟩ := run_bind_ok.1 h₉
  cases hreturn
  exact ⟨constructor, fields, hidden, s₁, handle, s₂, layout, s₃, s₄, s₅, hconstructor, hfields,
    hhidden,
    hdeclare, hlayout, hprepare, hacquire, hinitials, hbody, rfl⟩

/-- A new instance yields its handle, its fields and its constructor. -/
theorem yields_make (bodies : into.Yields) (className : String) (constructorIndex : Nat)
    (arguments : List Element) :
    Yields (expandNew into className constructorIndex arguments)
      (.make className constructorIndex arguments) fun x => [x] := by
  intro s x s' h clean
  obtain ⟨constructor, fields, hidden, s₁, handle, s₂, layout, s₃, s₄, s₅, hconstructor, hfields,
    hhidden,
    hdeclare, hlayout, hprepare, hacquire, hinitials, hbody, rfl⟩ := run_expandNew_ok h
  obtain ⟨d, lowers₂, laid₂⟩ := yields_body bodies _ _ _ _ _ _ s₅ () s' hbody clean
  obtain ⟨c, lowers₁, laid₁⟩ :=
    yields_initials bodies _ _ s₄ () s₅ hinitials (lowers₂.clean clean)
  have clean₄ := lowers₁.clean (lowers₂.clean clean)
  obtain ⟨t, hrun, e⟩ := run_onStorage_ok.1 hacquire
  obtain ⟨table, first, next, full, mark, acquires, kept, written, -⟩ := run_acquireHandle_ok hrun
  obtain ⟨actions, acquired⟩ :=
    emits_of_plain (.onStorage (.acquireHandle _ handle)) hacquire clean₄
  -- what the step emits is known twice: as some actions, and as those that take a handle
  obtain rfl : actions = acquireActions first next full mark := by
    have := acquired.extends'.list
    rw [e] at this
    exact List.append_cancel_left (this.symm.trans written)
  have prepared := emits_of_silent (.onStorage (.prepare layout)) hprepare acquired.before
  obtain ⟨declared, declares⟩ := emits_of_plain (Plain.rules.declare hidden none false) hdeclare
    prepared.before
  have named := emits_of_silent (.hiddenName "new") hhidden declares.before
  have stored : s₄.session.classData.table = some table := by
    rw [e]
    exact kept
  exact ⟨_, .make hconstructor hfields named declares hlayout prepared acquires acquired stored
    lowers₁ lowers₂, ((named.laid.seq declares.laid).of_nothing.seq
      ((prepared.laid.seq (.acquire acquired.extends')).of_nothing.seq (laid₁.seq laid₂)))⟩

/-! ## The tree of an expression -/

/-- A leaf yields itself. -/
theorem yields_leaf {e : Expr} {x : Element} {build : List Element → Element}
    (node : nodeOf e = some ([], build)) (agree : build [] = x) :
    Yields (pure x) (.expr e) fun x => [x] := by
  intro s y s' h _
  cases h
  rw [← agree]
  exact ⟨_, .node node .nil, .nothing _⟩

/-- A call yields its receiver and its arguments, and then the call. -/
theorem yields_called (bodies : into.Yields) {className : Option String} {method : String}
    {object : Option Expr} {arguments : List Expr} {ms : Lower (List Element)}
    {m : Lower (Option Element)} (operands : Yields ms (.exprs arguments) id)
    (received : ∀ callee : Callee, Yields (if callee.takesReceiver then m else pure none)
      (.exprs (receiverOf callee object)) Option.toList) :
    Yields (do
      let callee ← resolveCallee className method
      checkArity callee arguments.length
      let r ← if callee.takesReceiver then m else pure none
      let xs ← ms
      expandCall into callee r xs) (.expr (.call className method object arguments))
      fun x => [x] := by
  intro s x s' h clean
  obtain ⟨callee, _, hcallee, h₁⟩ := run_bind_ok.1 h
  obtain rfl := run_resolveCallee_ok hcallee
  obtain ⟨_, _, harity, h₂⟩ := run_bind_ok.1 h₁
  obtain ⟨arity, rfl⟩ := run_checkArity_ok harity
  -- the choice comes before what follows it in both of its cases
  have bound (n : Option Element → Lower Element) :
      (if callee.takesReceiver then m >>= n else pure none >>= n) =
        (if callee.takesReceiver then m else pure none) >>= n := by
    split <;> rfl
  dsimp only at h₂
  rw [bound] at h₂
  obtain ⟨r, s₁, hreceiver, h₃⟩ := run_bind_ok.1 h₂
  obtain ⟨xs, s₂, harguments, hcall⟩ := run_bind_ok.1 h₃
  obtain ⟨e, lowers₃, laid₃⟩ := yields_call bodies callee r xs s₂ x s' hcall clean
  have clean₂ := lowers₃.clean clean
  obtain ⟨d, lowers₂, laid₂⟩ := operands s₁ xs s₂ harguments clean₂
  have clean₁ := lowers₂.clean clean₂
  obtain ⟨c, lowers₁, laid₁⟩ := received callee _ r s₁ hreceiver clean₁
  have same : r.toList.head? = r := by cases r <;> rfl
  exact ⟨_, .call ⟨hcallee, .refl _, lowers₁.clean clean₁⟩ arity lowers₁ lowers₂
    (by rw [same]; exact lowers₃), laid₁.seq (laid₂.seq laid₃)⟩

/-- The receiver yields its operand where the method takes one. -/
theorem yields_receiver {object : Expr} {m : Lower Element} (callee : Callee)
    (operand : Yields m (.expr object) fun x => [x]) :
    Yields (if callee.takesReceiver then some <$> m else pure none)
      (.exprs (receiverOf callee (some object))) Option.toList := by
  intro s r s' h clean
  cases takes : callee.takesReceiver with
  | true =>
    rw [if_pos takes] at h
    obtain ⟨x, hx, rfl⟩ := run_map_ok.1 h
    rw [receiverOf, if_pos takes]
    exact yields_exprs_cons operand yields_exprs_nil hx rfl clean
  | false =>
    rw [if_neg (by simp [takes])] at h
    cases h
    rw [receiverOf, if_neg (by simp [takes])]
    exact ⟨_, .nil, .nothing _⟩

theorem yields_this (callee : Callee) :
    Yields (if callee.takesReceiver then (fun v : Variable => some v.get) <$> lookup "this"
      else pure none) (.exprs (receiverOf callee none)) Option.toList := by
  intro s r s' h clean
  cases takes : callee.takesReceiver with
  | true =>
    rw [if_pos takes] at h
    obtain ⟨v, hv, rfl⟩ := run_map_ok.1 h
    obtain ⟨rfl, emits⟩ := emits_lookup hv clean
    rw [receiverOf, if_pos takes]
    exact ⟨_, .cons (.this emits) .nil, (Laid.nothing _).seq (.nothing _)⟩
  | false =>
    rw [if_neg (by simp [takes])] at h
    cases h
    rw [receiverOf, if_neg (by simp [takes])]
    exact ⟨_, .nil, .nothing _⟩

mutual

/-- A successful lowering of an expression has a derivation, and its code is laid. -/
theorem yields_expr (bodies : into.Yields) :
    (e : Expr) → Yields (lowerExpr into e) (.expr e) fun x => [x]
  | .number x => yields_leaf rfl rfl
  | .bool b => yields_leaf rfl rfl
  | .currentActor => yields_leaf rfl rfl
  | .array items => by
    intro s x s' h clean
    rw [lowerExpr] at h
    obtain ⟨xs, u, h₁, h₂⟩ := run_bind_ok.1 h
    cases h₂
    obtain ⟨c, lowers, laid⟩ := yields_exprs bodies items s xs s' h₁ clean
    exact ⟨c, .node rfl lowers, laid⟩
  | .var name => by
    intro s x s' h clean
    rw [lowerExpr] at h
    obtain ⟨v, u, h₁, h₂⟩ := run_bind_ok.1 h
    cases h₂
    obtain ⟨rfl, emits⟩ := emits_lookup h₁ clean
    exact ⟨_, .var emits, .nothing _⟩
  | .this => by
    intro s x s' h clean
    rw [lowerExpr] at h
    obtain ⟨v, u, h₁, h₂⟩ := run_bind_ok.1 h
    cases h₂
    obtain ⟨rfl, emits⟩ := emits_lookup h₁ clean
    exact ⟨_, .this emits, .nothing _⟩
  | .index array index => by
    rw [lowerExpr]
    exact yields_two rfl (fun _ _ => rfl) (yields_expr bodies array) (yields_expr bodies index)
  | .field object className field => by
    intro s x s' h clean
    rw [lowerExpr] at h
    obtain ⟨handle, u, h₁, h₂⟩ := run_bind_ok.1 h
    obtain ⟨v, w, h₃, h₄⟩ := run_bind_ok.1 h₂
    cases h₄
    have found := emits_of_silent (.fieldVar _ _ _) h₃ clean
    obtain ⟨c, lowers, laid⟩ := yields_expr bodies object s handle u h₁ found.before
    refine ⟨c, .field lowers found, ?_⟩
    exact (laid.seq found.laid).toNothing
  | .staticField className field => by
    intro s x s' h clean
    rw [lowerExpr] at h
    obtain ⟨v, w, h₁, h₂⟩ := run_bind_ok.1 h
    cases h₂
    have found := emits_of_silent (.staticVar _ _) h₁ clean
    exact ⟨_, .staticField found, found.laid⟩
  | .actorVar actor name => by
    intro s x s' h clean
    rw [lowerExpr] at h
    obtain ⟨v, u, h₁, h₂⟩ := run_bind_ok.1 h
    obtain ⟨a, w, h₃, h₄⟩ := run_bind_ok.1 h₂
    cases h₄
    -- looking the variable up emits nothing, so the code is that of the actor
    obtain ⟨rfl, -, -⟩ := run_actorVar_ok h₁
    obtain ⟨c, lowers, laid⟩ := yields_expr bodies actor _ a s' h₃ clean
    exact ⟨c, .actorVar ⟨h₁, .refl _, lowers.clean clean⟩ lowers, laid⟩
  | .binary op lhs rhs => by
    rw [lowerExpr]
    exact yields_two rfl (fun _ _ => rfl) (yields_expr bodies lhs) (yields_expr bodies rhs)
  | .not inner => by
    rw [lowerExpr]
    exact yields_one rfl (fun _ => rfl) (yields_expr bodies inner)
  | .negate inner => by
    rw [lowerExpr]
    exact yields_one rfl (fun _ => rfl) (yields_expr bodies inner)
  | .length inner => by
    rw [lowerExpr]
    exact yields_one rfl (fun _ => rfl) (yields_expr bodies inner)
  | .new className constructorIndex arguments => by
    intro s x s' h clean
    rw [lowerExpr] at h
    obtain ⟨xs, u, h₁, h₂⟩ := run_bind_ok.1 h
    obtain ⟨d, lowers₂, laid₂⟩ := yields_make bodies _ _ _ u x s' h₂ clean
    obtain ⟨c, lowers₁, laid₁⟩ := yields_exprs bodies arguments s xs u h₁ (lowers₂.clean clean)
    exact ⟨_, .new lowers₁ lowers₂, laid₁.seq laid₂⟩
  | .call className method (some object) arguments => by
    rw [lowerExpr]
    exact yields_called bodies (yields_exprs bodies arguments) fun callee =>
      yields_receiver callee (yields_expr bodies object)
  | .call className method none arguments => by
    rw [lowerExpr]
    exact yields_called bodies (yields_exprs bodies arguments) yields_this

/-- A row of expressions yields its elements, by recursion over it. -/
theorem yields_exprs (bodies : into.Yields) :
    (es : List Expr) → Yields (lowerExprs into es) (.exprs es) id
  | [] => yields_exprs_nil
  | e :: es => by
    intro s xs s' h clean
    rw [lowerExprs] at h
    obtain ⟨x, u, h₁, h₂⟩ := run_bind_ok.1 h
    obtain ⟨rest, v, h₃, h₄⟩ := run_bind_ok.1 h₂
    cases h₄
    exact yields_exprs_cons (yields_expr bodies e) (yields_exprs bodies es) h₁ h₃ clean

end

end SkipCode
