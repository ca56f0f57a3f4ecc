import SkipCode.Proofs.Settling

/-!
# The code of statements does what they do

A run of the statements of a body has a run of their code, which ends in the same way with a memory
that agrees (`does_runs`). Where the statements exit, the code pops what is above the place where it
goes on.
-/

namespace SkipCode

open Engine (Host Memory)
open Lower
open Source (Branch Expr Stmt StmtKind)

/-- What is below a number is not above it. -/
theorem Binary64.not_lessEq_of_less {x y : Binary64} (less : x.less y = true) :
    y.lessEq x = false := by
  have number {z : Binary64} (nan : z.isNaN = true → x.less y = false) : z.isNaN = false := by
    rw [← Bool.not_eq_true]
    intro e
    rw [nan e] at less
    cases less
  rw [lessEq_eq_not_less (number fun nan => less_of_isNaN (.inl nan))
    (number fun nan => less_of_isNaN (.inr nan)),
    less]
  rfl

namespace Meaning

section

variable {h : Host} {S : Location → Prop} {T : UnitState} {B : Body} {κ κ' κ₁ : Layout}
  {L : List LoopType} {env env' env₁ : Env} {site : Nat} {s s₁ t u : UnitState} {m m' m₁ : Memory}
  {st st' : State} {pops : List Action} {a b c : Code} {ending : Ending}

/-! ## Pops -/

/-- Closing a scope pops what it pushed. -/
theorem pops_of_closes (closes : Closes t pops u) (sound : t.Sound S)
    (inside : B.depth ≤ u.scopes.length) :
    ∃ A : List Location, pops = A.map Location.pop ∧ B.stackPlaces t = A ++ B.stackPlaces u := by
  obtain ⟨scope, rest, σ, e, rfl, -, rfl⟩ := closes.closed
  refine ⟨scope.stackPlaces, pops_eq (sound.scopes scope (e ▸ List.mem_cons_self)).exits, ?_⟩
  rw [Body.stackPlaces, Body.stackPlaces, e, stacksAbove_cons inside, List.append_assoc]

/-! ## How code ends -/

/-- How a run of the code of statements ends, where `κ` was known at its beginning. At the end of
the code more may be known; on the way to another place what is still in reach there agrees, and
what the body returns is in its place. -/
inductive Ends (h : Host) (S : Location → Prop) (T : UnitState) (B : Body) (L : List LoopType)
    (κ : Layout) (env' : Env) (t : UnitState) (c : Code) (m : Memory) (st' : State) : Ending → Prop
  | next {m₂ : Memory} {κ₂ : Layout} : Exec h B.routines c m .next m₂ → κ.Le κ₂ →
      Sees h S T B κ₂ env' t →
      Agrees h S T B.base B.calls κ₂ (B.stackPlaces t) st' m₂ →
        Ends h S T B L κ env' t c m st' .next
  | exit {x : Ending} {m₂ : Memory} {Δ : List Location} : x ≠ .next →
      Exec h B.routines c m x.exit m₂ →
      x.exit.stackPlaces L B.params [] = some Δ → Remains h S T B.base B.calls κ Δ st' m₂ →
      (∀ v w, x = .returned (some v) → B.result = some w → h.value m₂ w.location = v) →
      Ends h S T B L κ env' t c m st' x

theorem Ending.exit_ne (ne : ending ≠ .next) : ending.exit ≠ .next := by
  cases ending with
  | next => exact absurd rfl ne
  | leave | again | returned => nofun

namespace Ends

/-- In other code that ends as this does. -/
theorem lift (ends : Ends h S T B L κ₁ env' t b m₁ st' ending) (le : κ.Le κ₁)
    (exec : ∀ x m', Exec h B.routines b m₁ x m' → Exec h B.routines c m x m') :
    Ends h S T B L κ env' t c m st' ending := by
  cases ends with
  | next exec' le' sees agrees => exact .next (exec _ _ exec') (le.trans le') sees agrees
  | exit ne exec' places remains stored =>
    exact .exit ne (exec _ _ exec') places (remains.mono le) stored

/-- Behind other code. -/
theorem after (ends : Ends h S T B L κ₁ env' t b m₁ st' ending)
    (exec : Exec h B.routines a m .next m₁) (le : κ.Le κ₁) :
    Ends h S T B L κ env' t (.seq a b) m st' ending :=
  ends.lift le fun _ _ exec' => exec.seq exec'

/-- What was known before is enough. -/
theorem forget (ends : Ends h S T B L κ env₁ t c m st' ending) (sees : Sees h S T B κ env t) :
    Ends h S T B L κ env t c m st' ending := by
  cases ends with
  | next exec le _ agrees => exact .next exec (.refl κ) sees (agrees.mono le)
  | exit ne exec places remains stored => exact .exit ne exec places remains stored

/-- Out of code that is not done. -/
theorem leaving (ends : Ends h S T B L κ₁ env₁ s₁ b m₁ st' ending) (ne : ending ≠ .next)
    (le : κ.Le κ₁)
    (exec : ∀ x m', x ≠ .next → Exec h B.routines b m₁ x m' → Exec h B.routines c m x m') :
    Ends h S T B L κ env' t c m st' ending := by
  cases ends with
  | next => exact absurd rfl ne
  | exit _ exec' places remains stored =>
    exact .exit ne (exec _ _ (Ending.exit_ne ne) exec') places (remains.mono le) stored

/-- Other code is not reached. -/
theorem stop (ends : Ends h S T B L κ env₁ s₁ a m st' ending) (ne : ending ≠ .next) :
    Ends h S T B L κ env' t (.seq a b) m st' ending :=
  ends.leaving ne (.refl κ) fun _ _ ne' exec => exec.seq_exit ne'

theorem steady (ends : Ends h S T B L κ env' s₁ c m st' ending) (scopes : t.scopes = s₁.scopes)
    (steady : s₁.Steady t) : Ends h S T B L κ env' t c m st' ending := by
  cases ends with
  | next exec le sees agrees =>
    refine .next exec le (sees.steady steady scopes) ?_
    rw [Body.stackPlaces, scopes]
    exact agrees
  | exit ne exec places remains stored => exact .exit ne exec places remains stored

/-- Only the scopes, the bodies and the symbols count. -/
theorem congr (ends : Ends h S T B L κ env' s₁ c m st' ending) (scopes : t.scopes = s₁.scopes)
    (frames : t.frames = s₁.frames) (symbols : t.symbols = s₁.symbols) :
    Ends h S T B L κ env' t c m st' ending := by
  cases ends with
  | next exec le sees agrees =>
    exact .next exec le (sees.congr scopes frames symbols) (B.stackPlaces_eq scopes ▸ agrees)
  | exit ne exec places remains stored => exact .exit ne exec places remains stored

/-- The scope of a piece is closed behind it, and what was known before is known again. -/
theorem close (ends : Ends h S T B L κ env₁ t c m st' ending) (ground : Ground h S T)
    (sees : Sees h S T B κ env s) (within : κ.Within S (B.stackPlaces s)) (steady : s.Steady u)
    (scopes : u.scopes = s.scopes) (inside : B.depth ≤ s.scopes.length) (closes : Closes t pops u)
    (sound : t.Sound S) : Ends h S T B L κ env u (.seq c (.acts pops)) m st' ending := by
  cases ends with
  | next exec le sees' agrees =>
    obtain ⟨A, rfl, places⟩ := pops_of_closes (B := B) closes sound (scopes ▸ inside)
    rw [places] at agrees
    obtain ⟨m', popped, remains⟩ := agrees.remains.pops ground
    have here := B.stackPlaces_eq scopes
    exact .next (exec.seq (.acts popped)) (.refl κ) (sees.steady steady scopes)
      (remains κ le (here ▸ within))
  | exit ne exec places remains stored =>
    exact .exit ne (exec.seq_exit (Ending.exit_ne ne)) places remains stored

end Ends

/-! ## Names -/

/-- Statements that assign and declare no variable of a hidden name. -/
def Visible (kinds : List StmtKind) : Prop :=
  ∀ k ∈ kinds, (∀ name, k.assigned? = some name → ¬ Hidden name) ∧ ∀ name ∈ k.declared,
    ¬ Hidden name

instance (kinds : List StmtKind) : Decidable (Visible kinds) :=
  decidable_of_iff (∀ k ∈ kinds, (∀ name ∈ k.assigned?, ¬ Hidden name) ∧ ∀ name ∈ k.declared,
    ¬ Hidden name) Iff.rfl

theorem Visible.subset {kinds kinds' : List StmtKind} (visible : Visible kinds)
    (sub : kinds' ⊆ kinds) :
    Visible kinds' := fun k mem => visible k (sub mem)

theorem Visible.fits {task : Task} (visible : Visible task.kinds) (none : task.result? = none) :
    task.Fits S :=
  ⟨fun k mem name assigned made => (visible k mem).1 name assigned (made.mono (by decide)),
    fun v found => by rw [none] at found; cases found⟩

theorem Visible.declares {task : Task} (visible : Visible task.kinds) :
    task.Declares (¬ Hidden ·) :=
  fun _ k mem => (visible k mem).2

/-- Behind a piece of the source. -/
theorem Scene.past {task : Task} {c : Code} {xs : List Element} (scene : Scene S T B L site s)
    (ground : Ground h S T) (room : task.IsBlock ∨ Roomy L B.depth s)
    (lowers : Lowers task s c xs t) (visible : Visible task.kinds) (none : task.result? = none)
    (later : t.Grows T) : Scene S T B L (site + task.sites) t :=
  scene.next ground room lowers (visible.fits none) visible.declares later

/-! ## Conditions -/

/-- The code of a condition leaves its negation, by which it is skipped, and what it pushed is
popped. -/
structure Tested (h : Host) (S : Location → Prop) (T : UnitState) (B : Body) (L : List LoopType)
    (κ : Layout) (env : Env) (site : Nat) (s s₂ : UnitState) (c : Code) (x : Element)
    (pops : List Action) (m : Memory) (u : Term) (st₁ : State) (m₁ m₂ : Memory) : Prop where
  exec : Exec h B.routines c m .next m₁
  guard : h.guard m₁ x.negate = some (u.eval st₁ true).truthy
  popped : h.acts m₁ pops = some m₂
  agrees : Agrees h S T B.base B.calls κ (B.stackPlaces s₂) st₁ m₂
  scene : Scene S T B L site s₂
  sees : Sees h S T B κ env s₂
  scopes : s₂.scopes = s.scopes

theorem condition_runs {calls : Calls} {condition : Expr} {u : Term} {x : Element}
    {list : ActionList} {s₂ : UnitState} (ground : Ground h S T) (runs : CallsRun h S T B calls)
    (settles : Settles (setting h T) calls B.mode env (.expr condition) st [u] st')
    (lowers : Lowers (.expr condition) s.opened c [x] s₁)
    (closes : Closes (s₁.withList list) pops s₂) (later : s₂.Grows T) (scene : Scene S T B L site s)
    (sees : Sees h S T B κ env s) (agrees : Agrees h S T B.base B.calls κ (B.stackPlaces s) st m) :
    ∃ m₁ m₂, Tested h S T B L κ env site s s₂ c x pops m u st' m₁ m₂ := by
  have inside := scene.ready.shaped.inside
  have roomy : Roomy L B.depth s.opened := scene.ready.shaped.roomy _
  have later₁ : s₁.Grows T := (UnitState.Grows.withList s₁ list).trans (closes.grows.trans later)
  have scopes : s₂.scopes = s.scopes := closes.scopes lowers.steady.scopes
  have steady : s.Steady s₂ := .inScope (lowers.steady.withList list) closes
  -- the condition is worked out in a scope of its own, so that its temporaries go with it
  obtain ⟨m₁, κ₁, e⟩ :=
    settles_runs ground runs settles lowers later₁ scene.opened roomy (sees.opened inside)
    (B.stackPlaces_opened inside ▸ agrees)
  have sound := (scene.opened.behind ground roomy lowers later₁ rfl rfl rfl).ready.sound
  obtain ⟨A, rfl, places⟩ :=
    pops_of_closes (B := B) closes ⟨sound.scopes, sound.results⟩ (scopes ▸ inside)
  have after := e.agrees
  change Agrees h S T B.base B.calls κ₁ (B.stackPlaces (s₁.withList list)) st' m₁ at after
  rw [places] at after
  obtain ⟨m₂, popped, remains⟩ := after.remains.pops ground
  -- the guard stands between, where the temporaries are still there
  obtain ⟨means, -⟩ := List.forall₂_cons.1 e.means
  have guard : h.guard m₁ x.negate = some (u.eval st' true).truthy := by
    rw [Host.guard, means.negation st' m₁ e.agrees.reads]
  have adds :=
    (lowers.adds scene.opened.counted fun _ inBody => False.elim inBody).tested list closes
  have sound₂ :=
    (closes.kept (S := S) ⟨sound.scopes, sound.results⟩ lowers.steady.scopes inside B.params).2
  exact ⟨m₁, m₂, e.exec, guard, popped, remains κ e.le (B.stackPlaces_eq scopes ▸ agrees.within),
    scene.same steady scopes sound₂ adds later, sees.steady steady scopes, scopes⟩

/-! ## Statements -/

/-- A declaration with a value. -/
theorem define_runs {calls : Calls} {name : String} {e : Expr} {recursive : Bool} {u : Term}
    {st₁ : State} (ground : Ground h S T) (ok : B.Ok h S) (runs : CallsRun h S T B calls)
    (settles : Settles (setting h T) calls B.mode env (.expr e) st [u] st₁)
    (fits : (B.mode.box recursive site st₁.entries).stacked = false →
      (u.eval st₁ false).items.length ≤ h.config.maxArrayLength)
    (lowers : Lowers (.kind (.define name (some e) recursive)) s c [] t) (later : t.Grows T)
    (visible : ¬ Hidden name) (scene : Scene S T B L site s) (roomy : Roomy L B.depth s)
    (sees : Sees h S T B κ env s) (agrees : Agrees h S T B.base B.calls κ (B.stackPlaces s) st m) :
    Ends h S T B L κ ((name, .box (B.mode.box recursive site st₁.entries)) :: env) t c m
      (st₁.enter (B.mode.box recursive site st₁.entries) (u.eval st₁ false)) .next := by
  cases lowers with
  | @define _ _ _ _ _ _ s₁ _ v _ h₁ declares =>
    have later₁ := declares.extends'.grows.trans later
    obtain ⟨m₁, κ₁, value⟩ :=
      settles_runs ground runs (settles.cons .nil) h₁ later₁ scene roomy sees agrees
    have scene₁ := scene.behind ground roomy h₁ later₁ rfl rfl rfl
    obtain ⟨c, κ₂, known, bound, box⟩ :=
      declare_known ground scene₁ value.sees (roomy.steady h₁.steady) declares later
      st₁.entries fun hidden => absurd hidden visible
    obtain ⟨x, rest, means, none, rfl⟩ := List.forall₂_cons_right_iff.1 value.means
    cases none
    rw [if_neg visible] at box
    subst box
    obtain ⟨m', acts, agrees⟩ :=
      known.runs ground ok later value.sees later₁ value.agrees means fits
    exact .next (value.exec.seq (.acts acts)) (value.le.trans known.le)
      (value.sees.defined ground known declares later bound visible) agrees

/-- An assignment. -/
theorem assign_runs {calls : Calls} {target : Source.Place} {index : List Expr}
    {op : Source.AssignOp} {value : Expr} {is os : List Term} {u v : Term} {st₁ st₂ st₃ : State}
    (ground : Ground h S T) (runs : CallsRun h S T B calls)
    (settles : Settles (setting h T) calls B.mode env (.exprs index) st is st₁)
    (operands : Settles (setting h T) calls B.mode env (.exprs (targetOperands target)) st₁ os st₂)
    (found : targetOf (setting h T) env target os = some u)
    (settles' : Settles (setting h T) calls B.mode env (.expr value) st₂ [v] st₃)
    (done : st₃.write h.config.maxArrayLength u (evalAll st₃ is)
      ((combined op u is v).eval st₃ false) = some st')
    (lowers : Lowers (.kind (.assign target index op value)) s c [] t) (later : t.Grows T)
    (scene : Scene S T B L site s) (roomy : Roomy L B.depth s) (sees : Sees h S T B κ env s)
    (agrees : Agrees h S T B.base B.calls κ (B.stackPlaces s) st m) :
    Ends h S T B L κ env t c m st' .next := by
  cases lowers with
  | assign list h₁ h₂ e h₃ set =>
    have later₄ := (UnitState.Grows.withList _ list).trans later
    have later₃ := h₃.steady.grows.trans later₄
    have later₂ := e.extends'.grows.trans later₃
    have later₁ := h₂.steady.grows.trans later₂
    -- the path, what the target is made from and the value, in this order
    obtain ⟨m₁, κ₁, path⟩ := settles_runs ground runs settles h₁ later₁ scene roomy sees agrees
    have scene₁ := scene.behind ground roomy h₁ later₁ rfl rfl rfl
    have roomy₁ := roomy.steady h₁.steady
    obtain ⟨m₂, κ₂, object⟩ :=
      settles_runs ground runs operands h₂ later₂ scene₁ roomy₁ path.sees path.agrees
    have scene₂ := scene₁.behind ground roomy₁ h₂ later₂ rfl rfl rfl
    have roomy₂ := roomy₁.steady h₂.steady
    have target := Target.of_resolveTarget later₃ object.sees e object.means found
    have looked := object.looked (.resolveTarget _ _) e object.means
    have scene₃ :=
      scene₂.step ground roomy₂ e (.resolveTarget _ _) (e.adds (.resolveTarget _ _)) later₃
    obtain ⟨m₃, κ₃, value⟩ :=
      settles_runs ground runs settles' h₃ later₄ scene₃ (roomy₂.steady e.extends'.steady)
      looked.sees looked.agrees
    -- target and path still mean what they did behind the value
    have target := target.mono value.le
    have path' := path.means.imp fun _ _ means => means.mono (object.le.trans value.le)
    obtain ⟨means, -⟩ := List.forall₂_cons.1 value.means
    obtain ⟨m', acts, agrees⟩ := target.assigns ground set value.agrees path'
      (.combined (target.means ground) path' means)
      done
    exact .next (path.exec.seq (object.exec.seq (value.exec.seq (.acts acts))))
      (path.le.trans (object.le.trans value.le)) (value.sees.congr rfl rfl rfl) agrees
  | assignActor => cases found

/-- A call whose result is not used. -/
theorem call_runs {calls : Calls} {className : Option String} {method : String}
    {object : Option Expr} {arguments : List Expr} {callee : Callee} {us ts : List Term}
    {st₁ st₂ : State} {r : Option Value} {w : World} (ground : Ground h S T)
    (runs : CallsRun h S T B calls)
    (resolved : (setting h T).callee? className method = some callee)
    (settles : Settles (setting h T) calls B.mode env (.exprs (receiverOf callee object)) st us st₁)
    (settles' : Settles (setting h T) calls B.mode env (.exprs arguments) st₁ ts st₂)
    (called : calls B.mode callee (evalAll st₂ us).head? (evalAll st₂ ts) st₂.world r w)
    (lowers : Lowers (.kind (.expr (.call className method object arguments))) s c [] t)
    (later : t.Grows T) (scene : Scene S T B L site s) (roomy : Roomy L B.depth s)
    (sees : Sees h S T B κ env s) (agrees : Agrees h S T B.base B.calls κ (B.stackPlaces s) st m) :
    Ends h S T B L κ env t c m { st₂ with world := w } .next := by
  cases lowers with
  | exprKind lowers =>
    obtain ⟨m', κ', exec, le, -, sees, agrees⟩ :=
      call_settles ground runs resolved (settles_runs ground runs settles)
        (settles_runs ground runs settles') called
        lowers later scene roomy sees agrees
    exact .next exec le sees agrees

/-! ## Exits -/

/-- A loop that is left, or goes on with its next round. -/
theorem unwind_runs {frame : Frame} {frames : List Frame} {target : LoopFrame} {k : UInt32}
    {exit : String} (ground : Ground h S T) (found : s.frames = frame :: frames)
    (reached : s.loops.frame k frame.loopFloor exit = .ok target) (scene : Scene S T B L site s)
    (agrees : Agrees h S T B.base B.calls κ (B.stackPlaces s) st m)
    (way : ending = .leave k.toNat ∧ c = .leave k.toNat ∨
      ending = .again k.toNat ∧ c = .again k.toNat) :
    Ends h S T B L κ env t (.seq (.acts (pendingPops s target.scopeDepth)) c) m st ending := by
  obtain ⟨type, Δ, here, leave, again, places⟩ := loop_reached found reached scene.ready
  rw [Body.stackPlaces, places] at agrees
  obtain ⟨m', popped, remains⟩ := agrees.remains.pops ground
  rw [← pendingPops_eq scene.ready.sound] at popped
  rcases way with ⟨rfl, rfl⟩ | ⟨rfl, rfl⟩
  · refine .exit (fun e => by cases e) (.seq (.acts popped) .leave) ?_ remains fun _ _ e => by
      cases e
    rw [Ending.exit, Exit.stackPlaces, here, Option.map_some, leave]
  · refine .exit (fun e => by cases e) (.seq (.acts popped) .again) ?_ remains fun _ _ e => by
      cases e
    rw [Ending.exit, Exit.stackPlaces, here, Option.map_some, again]

/-- What is returned is stored where the caller reads it. -/
theorem store_runs {x : Element} {u : Term} (ground : Ground h S T) (ok : B.Ok h S)
    (scene : Scene S T B L site s) (later : s.Grows T) (sees : Sees h S T B κ env s)
    (agrees : Agrees h S T B.base B.calls κ (B.stackPlaces s) st m) (means : Means h S T κ x u)
    (fits : B.mode ≠ .unit → (u.eval st false).items.length ≤ h.config.maxArrayLength) :
    ∃ m', h.acts m (storeResult B.result [x]) = some m' ∧
      Agrees h S T B.base B.calls κ (B.stackPlaces s) st m' ∧
        ∀ w, B.result = some w → ¬ S w.location ∧ h.value m' w.location = u.eval st false := by
  cases found : B.result with
  | none => exact ⟨m, rfl, agrees, nofun⟩
  | some w =>
    obtain ⟨whole, mem, unknown⟩ := sees.result w found
    have mem := Sees.of_grows later mem
    have notUnit : B.mode ≠ .unit := fun unit => by
      rw [ok.unit unit] at found
      cases found
    obtain ⟨m', acts, updates⟩ :=
      acts_whole ground whole mem (means.value st m agrees.reads) (fits notUnit)
    obtain ⟨frame, frames, frames_eq, -⟩ := scene.ready.shaped.body
    have plain := scene.ready.sound.results frame (frames_eq ▸ List.mem_cons_self) w
      ((scene.result frame frames frames_eq).trans found)
    refine ⟨m', acts, agrees.elsewhere ground plain mem unknown updates, fun w' e => ?_⟩
    cases e
    exact ⟨plain, updates.here⟩

/-- The end of a body. -/
theorem return_runs {calls : Calls} {value : Option Expr} {us : List Term} {st₁ : State}
    (ground : Ground h S T) (ok : B.Ok h S) (runs : CallsRun h S T B calls)
    (settles : Settles (setting h T) calls B.mode env (.exprs value.toList) st us st₁)
    (fits : B.mode ≠ .unit → ∀ u, us.head? = some u →
      (u.eval st₁ false).items.length ≤ h.config.maxArrayLength)
    (lowers : Lowers (.kind (.return value)) s c [] t) (later : t.Grows T)
    (scene : Scene S T B L site s) (roomy : Roomy L B.depth s) (sees : Sees h S T B κ env s)
    (agrees : Agrees h S T B.base B.calls κ (B.stackPlaces s) st m) :
    Ends h S T B L κ env' t c m st₁ (.returned (us.head?.map (·.eval st₁ false))) := by
  cases lowers with
  | @«return» _ _ c xs s₁ frame frames list skip h₁ found =>
    have later₁ : s₁.Grows T := .trans (.elsewhere ..) later
    obtain ⟨m₁, κ₁, operands⟩ := settles_runs ground runs settles h₁ later₁ scene roomy sees agrees
    have scene₁ := scene.behind ground roomy h₁ later₁ rfl rfl rfl
    obtain ⟨frame', frames', found', start, -, -⟩ := scene₁.ready.shaped.body
    rw [found] at found'
    cases found'
    -- the value is stored before what the body pushed is popped, since it may read from it
    obtain ⟨m₂, stored, agrees₂, result⟩ : ∃ m₂, h.acts m₁ (storeResult frame.result xs) = some m₂ ∧
        Agrees h S T B.base B.calls κ₁ (B.stackPlaces s₁) st₁ m₂ ∧
          ∀ v w, us.head?.map (·.eval st₁ false) = some v → B.result = some w →
            ¬ S w.location ∧ h.value m₂ w.location = v := by
      rw [scene₁.result frame frames found]
      rcases operands.means with _ | ⟨means, -⟩
      · exact ⟨m₁, rfl, operands.agrees, nofun⟩
      · obtain ⟨m₂, stored, agrees₂, result⟩ :=
          store_runs ground ok scene₁ later₁ operands.sees operands.agrees means
          fun other => fits other _ rfl
        exact ⟨m₂, stored, agrees₂, fun v w e => by cases e; exact result w⟩
    -- the pops leave the result alone, which is in no stack
    obtain ⟨m', popped, remains⟩ :=
      Remains.pops ground (A := stacksAbove s₁.scopes B.depth) agrees₂.remains
    have pops := popped
    rw [← pendingPops_eq scene₁.ready.sound, ← start] at pops
    refine .exit nofun
      (operands.exec.seq (.seq (.acts ?_) .ret)) rfl
        (remains.mono operands.le) fun v w e found => ?_
    · rw [Host.acts_append_eq]
      exact Option.bind_eq_some_iff.2 ⟨m₂, stored, pops⟩
    · obtain ⟨plain, value⟩ := result v w (Ending.returned.inj e) found
      have other : w.location ∉ stacksAbove s₁.scopes B.depth := fun mem =>
        plain (agrees₂.stackPlaces.stack _ (List.mem_append_left _ mem))
      rw [acts_pops_elsewhere other popped, value]

/-! ## Runs of pieces -/

/-- The code of a piece of the source, wherever it stands, runs as the piece does. -/
def PieceRuns (h : Host) (S : Location → Prop) (T : UnitState) (B : Body) (site : Nat) (env : Env)
    (task : Task) (st : State) (ending : Ending) (env' : Env) (st' : State) : Prop :=
  ∀ {L κ s t c m}, Lowers task s c [] t → t.Grows T → Visible task.kinds → Scene S T B L site s →
    task.IsBlock ∨ Roomy L B.depth s → Sees h S T B κ env s →
    Agrees h S T B.base B.calls κ (B.stackPlaces s) st m → Ends h S T B L κ env' t c m st' ending

/-- The negation of a test that is decided. -/
theorem Term.truthy_of_test {u : Term} {holds : Bool} (test : u.test st = some holds) :
    (u.eval st true).truthy = !holds := by
  unfold Term.test at test
  split at test
  · cases test
  · next other =>
    rw [← Option.some.inj test]
    exact Bool.eq_not.2 other

section

variable {calls : Calls} {condition : Expr} {body : List Stmt} {u : Term} {st₁ : State}

theorem block_runs (ground : Ground h S T) {body : List Stmt}
    (ih : PieceRuns h S T B site env (.stmts body) st ending env' st') :
    PieceRuns h S T B site env (.block body) st ending env st' := by
  intro L κ s t c m lowers later visible scene _ sees agrees
  cases lowers with
  | block h₁ closes =>
    have inside := scene.ready.shaped.inside
    have later₁ := closes.grows.trans later
    have roomy : Roomy L B.depth s.opened := scene.ready.shaped.roomy _
    have ends := ih h₁ later₁ visible scene.opened (.inr roomy) (sees.opened inside)
      (B.stackPlaces_opened inside ▸ agrees)
    have sound := (scene.opened.past ground (.inr roomy) h₁ visible rfl later₁).ready.sound
    exact ends.close ground sees agrees.within (.inScope h₁.steady closes)
      (closes.scopes h₁.steady.scopes) inside
      closes
      sound

/-- An arm whose condition holds. -/
theorem arm_runs {rest : List Branch} {otherwise : Option (List Stmt)} (ground : Ground h S T)
    (runs : CallsRun h S T B calls)
    (settles : Settles (setting h T) calls B.mode env (.expr condition) st [u] st₁)
    (holds : u.test st₁ = some true)
    (ih : PieceRuns h S T B site env (.block body) st₁ ending env' st') :
    PieceRuns h S T B site env (.arms (.mk condition body :: rest) otherwise) st ending env
      st' := by
  intro L κ s t c m lowers later visible scene _ sees agrees
  suffices Ends h S T B L κ env' t c m st' ending from
    this.forget (sees.steady lowers.steady (lowers.scopes_eq trivial))
  have visible' := visible.subset Task.kinds_arm
  cases lowers with
  | arms_last list list' h₁ closes h₂ =>
    have later₃ := (UnitState.Grows.withList _ list').trans later
    obtain ⟨m₁, m₂, tested⟩ :=
      condition_runs ground runs settles h₁ closes (h₂.steady.grows.trans later₃) scene sees
      agrees
    have ends := ih h₂ later₃ visible' tested.scene (.inl ⟨_, rfl⟩) tested.sees tested.agrees
    cases tested.popped
    have guard := tested.guard
    rw [Term.truthy_of_test holds] at guard
    exact (ends.lift (.refl κ) fun x m' exec => tested.exec.seq (.arm_body guard exec)).steady rfl
      ((UnitState.Steady.refl _).withList list')
  | arms_cons list list' h₁ closes h₂ h₃ =>
    have later₃ := (UnitState.Grows.withList _ list').trans (h₃.steady.grows.trans later)
    obtain ⟨m₁, m₂, tested⟩ :=
      condition_runs ground runs settles h₁ closes (h₂.steady.grows.trans later₃) scene sees
      agrees
    have ends := ih h₂ later₃ visible' tested.scene (.inl ⟨_, rfl⟩) tested.sees tested.agrees
    have guard := tested.guard
    rw [Term.truthy_of_test holds] at guard
    exact (ends.lift (.refl κ) fun x m' exec =>
      tested.exec.seq (.choice_body guard (.seq (.acts tested.popped) exec))).steady
        (h₃.scopes_eq trivial) (((UnitState.Steady.refl _).withList list').trans h₃.steady)

/-- Behind the body of an arm that is not taken, what holds behind the condition still does. -/
theorem Tested.behind {s₂ s₃ : UnitState} {c d : Code} {x : Element} {pops : List Action}
    (tested : Tested h S T B L κ env site s s₂ c x pops m u st₁ m₁ m₂) (ground : Ground h S T)
    (lowers : Lowers (.block body) s₂ d [] s₃) (list : ActionList) (later : s₃.Grows T)
    (visible : Visible (Task.block body).kinds) (roomy : Roomy L B.depth s₂) :
    Scene S T B L (site + sites (Source.kindsOf body)) (s₃.withList list) ∧
      Roomy L B.depth (s₃.withList list) ∧
      Sees h S T B κ env (s₃.withList list) ∧
        Agrees h S T B.base B.calls κ (B.stackPlaces (s₃.withList list)) st₁ m₂ := by
  have scene := tested.scene.past ground (.inl ⟨_, rfl⟩) lowers visible rfl later
  have steady : s₂.Steady (s₃.withList list) := lowers.steady.withList list
  have scopes : s₃.scopes = s₂.scopes := lowers.scopes_eq trivial
  exact ⟨scene.withList list, roomy.steady steady, tested.sees.steady steady scopes,
    B.stackPlaces_eq scopes ▸ tested.agrees⟩

/-- An arm whose condition does not hold. -/
theorem arms_run {rest : List Branch} {otherwise : Option (List Stmt)} (ground : Ground h S T)
    (runs : CallsRun h S T B calls)
    (settles : Settles (setting h T) calls B.mode env (.expr condition) st [u] st₁)
    (fails : u.test st₁ = some false)
    (ih : PieceRuns h S T B (site + sites (Source.kindsOf body)) env
      (.arms rest otherwise) st₁ ending env' st') :
    PieceRuns h S T B site env (.arms (.mk condition body :: rest) otherwise) st ending env
      st' := by
  intro L κ s t c m lowers later visible scene room sees agrees
  suffices Ends h S T B L κ env' t c m st' ending from
    this.forget (sees.steady lowers.steady (lowers.scopes_eq trivial))
  have visible' : Visible (Task.block body).kinds := visible.subset Task.kinds_arm
  have roomy : Roomy L B.depth s := room.resolve_left nofun
  cases lowers with
  | @arms_last _ _ _ _ _ s₁ s₂ d s₃ list list' h₁ closes h₂ =>
    have later₃ := (UnitState.Grows.withList s₃ list').trans later
    obtain ⟨m₁, m₂, tested⟩ :=
      condition_runs ground runs settles h₁ closes (h₂.steady.grows.trans later₃) scene sees
      agrees
    have before : s.Steady s₂ := .inScope (h₁.steady.withList list) closes
    obtain ⟨scene₃, roomy₃, sees₃, agrees₃⟩ :=
      tested.behind ground h₂ list' later₃ visible' (roomy.steady before)
    cases tested.popped
    have guard := tested.guard
    rw [Term.truthy_of_test fails] at guard
    -- there is no other arm, so nothing more is done
    refine (ih .arms_nil later (visible.subset Task.kinds_arms) scene₃
      (.inr roomy₃) sees₃ agrees₃).lift (.refl κ)
      fun x m' exec => ?_
    cases exec with
    | acts nothing =>
      cases nothing
      exact tested.exec.seq (.arm_skip guard)
  | @arms_cons _ _ _ _ _ _ _ s₁ _ s₂ d s₃ e _ list list' h₁ closes h₂ h₃ =>
    have later₃ := (UnitState.Grows.withList s₃ list').trans (h₃.steady.grows.trans later)
    obtain ⟨m₁, m₂, tested⟩ :=
      condition_runs ground runs settles h₁ closes (h₂.steady.grows.trans later₃) scene sees
      agrees
    have before : s.Steady s₂ := .inScope (h₁.steady.withList list) closes
    obtain ⟨scene₃, roomy₃, sees₃, agrees₃⟩ :=
      tested.behind ground h₂ list' later₃ visible' (roomy.steady before)
    have guard := tested.guard
    rw [Term.truthy_of_test fails] at guard
    -- the pops of the condition stand in the other branch too, before the arms that are left
    exact (ih h₃ later (visible.subset Task.kinds_arms) scene₃ (.inr roomy₃) sees₃ agrees₃).lift
      (.refl κ)
      fun x m' exec => tested.exec.seq (.choice_other guard (.seq (.acts tested.popped) exec))

end

/-! ## Loops -/

namespace Ends

variable {Δ ended : List Location} {pass step : Code} {tail : List Action} {x : Ending}

/-- A pass that leaves its loop ends where the loop began. -/
theorem left (ends : Ends h S T B (⟨ended, Δ, Δ⟩ :: L) κ env₁ s₁ pass m st' (.leave 0))
    (within : κ.Within S Δ) :
    ∃ m', Exec h B.routines pass m (.leave 0) m' ∧ Agrees h S T B.base B.calls κ Δ st' m' := by
  cases ends with
  | exit _ exec places remains =>
    cases places
    exact ⟨_, exec, remains.agrees within⟩

/-- A pass after which the loop goes on. -/
theorem passed (ends : Ends h S T B (⟨ended, Δ, Δ⟩ :: L) κ env₁ s₁ pass m st' ending)
    (way : ending = .next ∨ ending = .again 0) (places : B.stackPlaces s₁ = Δ)
    (within : κ.Within S Δ) :
    ∃ m', Exec h B.routines pass m ending.exit m' ∧ (ending.exit = .next ∨ ending.exit = .again 0) ∧
      Agrees h S T B.base B.calls κ Δ st' m' := by
  cases ends with
  | next exec le _ agrees => exact ⟨_, exec, .inl rfl, places ▸ agrees.mono le⟩
  | exit ne exec here remains =>
    obtain rfl := way.resolve_left ne
    cases here
    exact ⟨_, exec, .inr rfl, remains.agrees within⟩

/-- A pass that leaves more than its loop. -/
theorem beyond (ends : Ends h S T B (⟨ended, Δ, Δ⟩ :: L) κ env₁ s₁ pass m st' ending)
    (out : ending.beyond = some x) : Ends h S T B L κ env' t (.loop pass step tail) m st' x := by
  cases ends with
  | next => cases out
  | exit _ exec places remains stored =>
    cases ending with
    | next => cases out
    | leave k | again k =>
      cases k with
      | zero => cases out
      | succ k =>
        cases out
        exact .exit nofun (.loop_beyond exec rfl) places remains nofun
    | returned v =>
      cases out
      exact .exit nofun (.loop_beyond exec rfl) places remains stored

end Ends

section

variable {calls : Calls} {condition : Expr} {body step : List Stmt} {u : Term} {st₁ st₂ st₃ : State}
  {x : Ending}

/-- A pass of a loop behind its test, with the step and the state behind both. -/
structure Pass (h : Host) (S : Location → Prop) (T : UnitState) (B : Body) (L : List LoopType)
    (κ : Layout) (env : Env) (site : Nat) (s : UnitState) (body step : List Stmt) (c : Code)
    (m : Memory) (u : Term) (st₁ : State) (t : UnitState) (first d e : Code) (x : Element)
    (pops : List Action) (s₂ s₃ s₃' s₄ : UnitState) (m₁ m₂ : Memory) : Prop where
  code : c = .loop (.seq first (.seq (.test x.negate) (.seq (.acts pops) d))) e pops
  tested : Tested h S T B (⟨[], B.stackPlaces s, B.stackPlaces s⟩ :: L) κ env site s s₂ first x pops
    m u st₁ m₁ m₂
  lowers : Lowers (.block body) s₂ d [] s₃
  later : s₃.Grows T
  scopes : s₃.scopes = s₂.scopes
  lowers' : Lowers (.block step) s₃' e [] s₄
  later' : s₄.Grows T
  scene : Scene S T B L (site + sites (Source.kindsOf body)) s₃'
  sees : Sees h S T B κ env s₃'
  scopes' : s₃'.scopes = s.scopes
  steady : s.Steady t
  same : t.scopes = s.scopes

theorem loop_pass {c : Code} (ground : Ground h S T) (runs : CallsRun h S T B calls)
    (settles : Settles (setting h T) calls B.mode env (.expr condition) st [u] st₁)
    (lowers : Lowers (.loop condition body step) s c [] t) (later : t.Grows T)
    (visible : Visible (Task.loop condition body step).kinds) (scene : Scene S T B L site s)
    (sees : Sees h S T B κ env s) (agrees : Agrees h S T B.base B.calls κ (B.stackPlaces s) st m) :
    ∃ first d e x pops s₂ s₃ s₃' s₄ m₁ m₂, Pass h S T B L κ env site s body step c m u st₁ t first d
      e x pops
      s₂ s₃ s₃' s₄ m₁ m₂ := by
  have steady := lowers.steady
  have same := lowers.scopes_eq trivial
  cases lowers with
  | @loop _ _ _ _ first x s₁ pops s₂ d s₃ e s₄ list list' list'' list''' h₁ closes h₂ h₃ =>
    have later₄ := (UnitState.Grows.withList s₄ list''').trans later
    have later₃' := h₃.steady.grows.trans later₄
    have later₃ : s₃.Grows T := .trans (.elsewhere ..) later₃'
    -- the test stands inside of the loop
    have inner := scene.looping list []
    obtain ⟨m₁, m₂, tested⟩ := condition_runs (s := s.looping list) ground runs settles h₁ closes
      (h₂.steady.grows.trans later₃) inner (sees.congr rfl rfl rfl) agrees
    have visible' : Visible (Task.block body).kinds := visible.subset (List.subset_append_left _ _)
    -- the step stands outside of the loop again
    have scopes := h₂.scopes_eq trivial
    have steady' : s.Steady (s₃.looped list'') :=
      .inLoop ((UnitState.Steady.inScope (h₁.steady.withList list') closes).trans h₂.steady) list''
    have scopes' : (s₃.looped list'').scopes = s.scopes := scopes.trans tested.scopes
    have scene₃ := tested.scene.past ground (.inl ⟨_, rfl⟩) h₂ visible' rfl later₃
    have scene₃' := scene₃.looped list''
      (scene.ready.same steady' scopes' ⟨scene₃.ready.sound.scopes, scene₃.ready.sound.results⟩)
    exact ⟨first, d, e, x, pops, s₂, s₃, s₃.looped list'', s₄, m₁, m₂, rfl,
      ⟨tested.exec, tested.guard, tested.popped, tested.agrees, tested.scene, tested.sees,
        tested.scopes⟩, h₂, later₃,
      scopes, h₃, later₄, scene₃', sees.steady steady' scopes', scopes', steady, same⟩

namespace Pass

variable {c first d e : Code} {y : Element} {s₂ s₃ s₃' s₄ : UnitState} {m₂ : Memory} {env₂ : Env}

/-- A pass that its test ends. -/
theorem ended
    (pass : Pass h S T B L κ env site s body step c m u st₁ t first d e y pops s₂ s₃ s₃' s₄ m₁ m₂)
    (fails : u.test st₁ = some false) (sees : Sees h S T B κ env s) :
    Ends h S T B L κ env t c m st₁ .next := by
  have guard := pass.tested.guard
  rw [Term.truthy_of_test fails] at guard
  have exec : Exec h B.routines (.seq first (.seq (.test y.negate) (.seq (.acts pops) d))) m
    .ended m₁ :=
    pass.tested.exec.seq (.seq_exit (.test_over guard) nofun)
  rw [pass.code]
  refine .next (.loop_over exec pass.tested.popped) (.refl κ) (sees.steady pass.steady pass.same) ?_
  rw [B.stackPlaces_eq pass.same, ← B.stackPlaces_eq pass.tested.scopes]
  exact pass.tested.agrees

/-- A pass with its body. -/
theorem runs
    (pass : Pass h S T B L κ env site s body step c m u st₁ t first d e y pops s₂ s₃ s₃' s₄ m₁ m₂)
    (holds : u.test st₁ = some true) (visible : Visible (Source.kindsOf body))
    (ih : PieceRuns h S T B site env (.block body) st₁ ending env₂ st₂) :
    Ends h S T B (⟨[], B.stackPlaces s, B.stackPlaces s⟩ :: L) κ env₂ s₃
      (.seq first (.seq (.test y.negate) (.seq (.acts pops) d))) m st₂ ending := by
  have guard := pass.tested.guard
  rw [Term.truthy_of_test holds] at guard
  refine (ih pass.lowers pass.later visible pass.tested.scene (.inl ⟨_, rfl⟩) pass.tested.sees
    pass.tested.agrees).lift (.refl κ) fun x m' exec => ?_
  exact pass.tested.exec.seq (.seq (.test_next guard) (.seq (.acts pass.tested.popped) exec))

/-- A pass behind which the step is done. -/
theorem stepped
    (pass : Pass h S T B L κ env site s body step c m u st₁ t first d e y pops s₂ s₃ s₃' s₄ m₁ m₂)
    (holds : u.test st₁ = some true) (visible : Visible (Task.loop condition body step).kinds)
    (within : κ.Within S (B.stackPlaces s)) (way : ending = .next ∨ ending = .again 0)
    (ih : PieceRuns h S T B site env (.block body) st₁ ending env₂ st₂)
    (ih' : PieceRuns h S T B (site + sites (Source.kindsOf body)) env
      (.block step) st₂ x env' st₃) :
    ∃ m₃, Exec h B.routines (.seq first (.seq (.test y.negate) (.seq (.acts pops) d))) m
      ending.exit m₃ ∧
      (ending.exit = .next ∨ ending.exit = .again 0) ∧ Ends h S T B L κ env' s₄ e m₃ st₃ x := by
  have ends := pass.runs holds (visible.subset (List.subset_append_left _ _)) ih
  have same := B.stackPlaces_eq pass.scopes'
  obtain ⟨m₃, exec, way', agrees⟩ :=
    ends.passed way (B.stackPlaces_eq (pass.scopes.trans pass.tested.scopes)) within
  exact ⟨m₃, exec, way', ih' pass.lowers' pass.later'
    (visible.subset (List.subset_append_right _ _)) pass.scene
    (.inl ⟨_, rfl⟩) pass.sees (same ▸ agrees)⟩

end Pass

section

variable {env₂ env₃ : Env}

theorem loop_over_runs (ground : Ground h S T) (runs : CallsRun h S T B calls)
    (settles : Settles (setting h T) calls B.mode env (.expr condition) st [u] st₁)
    (fails : u.test st₁ = some false) :
    PieceRuns h S T B site env (.loop condition body step) st .next env st₁ := by
  intro L κ s t c m lowers later visible scene _ sees agrees
  obtain ⟨_, _, _, _, _, _, _, _, _, _, _, pass⟩ :=
    loop_pass ground runs settles lowers later visible scene sees agrees
  exact pass.ended fails sees

theorem loop_leave_runs (ground : Ground h S T) (runs : CallsRun h S T B calls)
    (settles : Settles (setting h T) calls B.mode env (.expr condition) st [u] st₁)
    (holds : u.test st₁ = some true)
    (ih : PieceRuns h S T B site env (.block body) st₁ (.leave 0) env₂ st₂) :
    PieceRuns h S T B site env (.loop condition body step) st .next env st₂ := by
  intro L κ s t c m lowers later visible scene _ sees agrees
  obtain ⟨_, _, _, _, _, _, _, _, _, _, _, pass⟩ :=
    loop_pass ground runs settles lowers later visible scene sees agrees
  have ends := pass.runs holds (visible.subset (List.subset_append_left _ _)) ih
  obtain ⟨m', exec, agrees'⟩ := ends.left agrees.within
  rw [pass.code]
  exact .next (.loop_leave exec) (.refl κ) (sees.steady pass.steady pass.same)
    (B.stackPlaces_eq pass.same ▸ agrees')

theorem loop_beyond_runs (ground : Ground h S T) (runs : CallsRun h S T B calls)
    (settles : Settles (setting h T) calls B.mode env (.expr condition) st [u] st₁)
    (holds : u.test st₁ = some true)
    (ih : PieceRuns h S T B site env (.block body) st₁ ending env₂ st₂)
    (out : ending.beyond = some x) :
    PieceRuns h S T B site env (.loop condition body step) st x env' st₂ := by
  intro L κ s t c m lowers later visible scene _ sees agrees
  obtain ⟨_, _, _, _, _, _, _, _, _, _, _, pass⟩ :=
    loop_pass ground runs settles lowers later visible scene sees agrees
  rw [pass.code]
  exact (pass.runs holds (visible.subset (List.subset_append_left _ _)) ih).beyond out

theorem loop_step_runs (ground : Ground h S T) (runs : CallsRun h S T B calls)
    (settles : Settles (setting h T) calls B.mode env (.expr condition) st [u] st₁)
    (holds : u.test st₁ = some true)
    (ih : PieceRuns h S T B site env (.block body) st₁ ending env₂ st₂)
    (way : ending = .next ∨ ending = .again 0)
    (ih' : PieceRuns h S T B (site + sites (Source.kindsOf body)) env (.block step) st₂ x env₃ st₃)
    (ne : x ≠ .next) :
    PieceRuns h S T B site env (.loop condition body step) st x env' st₃ := by
  intro L κ s t c m lowers later visible scene _ sees agrees
  obtain ⟨_, _, _, _, _, _, _, _, _, _, _, pass⟩ :=
    loop_pass ground runs settles lowers later visible scene sees agrees
  obtain ⟨m₃, exec, way', ends⟩ := pass.stepped holds visible agrees.within way ih ih'
  rw [pass.code]
  exact ends.leaving ne (.refl κ) fun y m' ne' exec' => .loop_step exec way' exec' ne'

theorem loop_round_runs (ground : Ground h S T) (runs : CallsRun h S T B calls)
    (settles : Settles (setting h T) calls B.mode env (.expr condition) st [u] st₁)
    (holds : u.test st₁ = some true)
    (ih : PieceRuns h S T B site env (.block body) st₁ ending env₂ st₂)
    (way : ending = .next ∨ ending = .again 0)
    (ih' : PieceRuns h S T B (site + sites (Source.kindsOf body)) env
      (.block step) st₂ .next env₃ st₃)
    (ih'' : PieceRuns h S T B site env (.loop condition body step) st₃ x env' st') :
    PieceRuns h S T B site env (.loop condition body step) st x env st' := by
  intro L κ s t c m lowers later visible scene room sees agrees
  suffices Ends h S T B L κ env' t c m st' x from this.forget
    (sees.steady lowers.steady (lowers.scopes_eq trivial))
  obtain ⟨_, _, _, _, _, _, _, _, _, _, _, pass⟩ :=
    loop_pass ground runs settles lowers later visible scene sees agrees
  obtain ⟨m₃, exec, way', ends⟩ := pass.stepped holds visible agrees.within way ih ih'
  cases ends with
  | exit ne => exact absurd rfl ne
  | @next m₄ κ₄ exec' le _ agrees' =>
    have same := B.stackPlaces_eq ((pass.lowers'.scopes_eq trivial).trans pass.scopes')
    refine (ih'' lowers later visible scene room sees (same ▸ agrees'.mono le)).lift
      (.refl κ) fun y m' exec'' => ?_
    rw [pass.code] at exec'' ⊢
    exact .loop_round exec way' exec' exec''

end

end

/-! ## Loops over arrays -/

/-- The code of the rounds of a loop over an array, from a state in which its index is declared. -/
structure Rounds (h : Host) (S : Location → Prop) (T : UnitState) (B : Body) (L : List LoopType)
    (κ : Layout) (env : Env) (site : Nat) (s : UnitState) (element : String) (array : Term)
    (index : Box) (body : List Stmt) (c : Code) (v : Variable) (x : Element) (d : Code)
    (pops next : List Action) (list list' : ActionList) (s₄ s₅ : UnitState) : Prop where
  code : c = .loop (.seq (.test (.compare v.get .greaterEqual (.countOf x))) (.seq d (.acts pops)))
    (.acts next) []
  lowers : Lowers (.stmts body)
    { (s.looping list).withList list' with
      scopes := ⟨[(element, .reference (.itemAt x v.get))], [], []⟩ :: s.scopes } d [] s₄
  closes : Closes s₄ pops s₅
  later : s₅.Grows T
  next : v.set "foreach index" (v.get.add (.ofNat 1)) [] = .ok next
  scene : Scene S T B L site s
  sees : Sees h S T B κ env s
  array : Means h S T κ x array
  index : Stands h S T κ v (.box index)
  named : ¬ Hidden element
  visible : Visible (Source.kindsOf body)

/-- The code of the rounds runs as they do. -/
def RoundsRun (h : Host) (S : Location → Prop) (T : UnitState) (B : Body) (site : Nat) (env : Env)
    (element : String) (array : Term) (index : Box) (body : List Stmt) (st : State)
    (ending : Ending) (st' : State) : Prop :=
  ∀ {L κ s c v x d pops next list list' s₄ s₅ m},
    Rounds h S T B L κ env site s element array index body c v x d pops
    next list list' s₄ s₅ → Agrees h S T B.base B.calls κ (B.stackPlaces s) st m →
    Ends h S T B L κ env s c m st' ending

namespace Rounds

variable {element : String} {array : Term} {index : Box} {body : List Stmt} {v : Variable}
  {x : Element} {d : Code} {next : List Action} {list list' : ActionList} {s₄ s₅ : UnitState}
  {st₁ : State} {y : Ending}

/-- The test of a round. -/
theorem guard
    (rounds : Rounds h S T B L κ env site s element array index body c v x d pops next list
      list' s₄ s₅)
    (agrees : Agrees h S T B.base B.calls κ (B.stackPlaces s) st m) :
    h.guard m (.compare v.get .greaterEqual (.countOf x)) =
      some ((Binary64.ofNat (array.eval st false).items.length).lessEq
        (st.boxes index).asNumber) := by
  rw [Host.guard, Engine.eval, rounds.index.means.value st m agrees.reads, Engine.eval,
    rounds.array.value st m agrees.reads, Term.eval]
  rfl

/-- Where the body of a round begins. -/
theorem inner
    (rounds : Rounds h S T B L κ env site s element array index body c v x d pops next list list'
      s₄ s₅) :
    Scene S T B (⟨[], B.stackPlaces s, B.stackPlaces s⟩ :: L) site
      { (s.looping list).withList list' with
        scopes := ⟨[(element, .reference (.itemAt x v.get))], [], []⟩ :: s.scopes } :=
  ((rounds.scene.looping list []).withList list').surrounded
    (.of_reference element (.itemAt x v.get))

theorem roomy
    (rounds : Rounds h S T B L κ env site s element array index body c v x d pops next list list'
      s₄ s₅) :
    Roomy (⟨[], B.stackPlaces s, B.stackPlaces s⟩ :: L) B.depth
      { (s.looping list).withList list' with
        scopes := ⟨[(element, .reference (.itemAt x v.get))], [], []⟩ :: s.scopes } :=
  ((rounds.scene.looping list []).withList list').ready.shaped.roomy _

/-- Where it ends. -/
theorem sound
    (rounds : Rounds h S T B L κ env site s element array index body c v x d pops next list
      list' s₄ s₅)
    (ground : Ground h S T) : s₄.Sound S :=
  (rounds.inner.past ground (.inr rounds.roomy) rounds.lowers rounds.visible rfl
    (rounds.closes.grows.trans rounds.later)).ready.sound

/-- A round with its body. -/
theorem runs
    (rounds : Rounds h S T B L κ env site s element array index body c v x d pops next list
      list' s₄ s₅)
    (ground : Ground h S T) (agrees : Agrees h S T B.base B.calls κ (B.stackPlaces s) st m)
    (inside : (st.boxes index).asNumber.less (.ofNat (array.eval st false).items.length) = true)
    (ih : PieceRuns h S T B site ((element, .item array (.box index)) :: env)
      (.stmts body) st ending env₁ st₁) :
    Ends h S T B (⟨[], B.stackPlaces s, B.stackPlaces s⟩ :: L) κ env s₅
      (.seq (.test (.compare v.get .greaterEqual (.countOf x))) (.seq d (.acts pops))) m st₁
        ending := by
  have depth := rounds.scene.ready.shaped.inside
  have later₄ := rounds.closes.grows.trans rounds.later
  have sees : Sees h S T B κ env ((s.looping list).withList list') := rounds.sees.congr rfl rfl rfl
  have sees' := sees.referring rounds.named (rounds.array.item rounds.index.means) nofun
    rounds.scene.floor depth
  have here : B.stackPlaces { (s.looping list).withList list' with
      scopes :=
        ⟨[(element, .reference (.itemAt x v.get))], [], []⟩ :: s.scopes } = B.stackPlaces s :=
    B.stackPlaces_surrounded depth rfl
  have ends :=
    ih rounds.lowers later₄ rounds.visible rounds.inner (.inr rounds.roomy) sees' (here ▸ agrees)
  have steady : ((s.looping list).withList list').Steady s₅ :=
    .inScope rounds.lowers.steady rounds.closes
  have scopes : s₅.scopes = s.scopes := rounds.closes.scopes rounds.lowers.steady.scopes
  have guard := rounds.guard agrees
  rw [Binary64.not_lessEq_of_less inside] at guard
  exact (ends.close ground sees agrees.within steady scopes depth rounds.closes
    (rounds.sound ground)).lift (.refl κ)
    fun y m' exec => .seq (.test_next guard) exec

/-- The last test. -/
theorem ended
    (rounds : Rounds h S T B L κ env site s element array index body c v x d pops next list
      list' s₄ s₅)
    (agrees : Agrees h S T B.base B.calls κ (B.stackPlaces s) st m)
    (outside : (Binary64.ofNat (array.eval st false).items.length).lessEq
      (st.boxes index).asNumber = true) :
    Ends h S T B L κ env s c m st .next := by
  have guard := rounds.guard agrees
  rw [outside] at guard
  rw [rounds.code]
  exact .next (.loop_over (.seq_exit (.test_over guard) nofun) rfl) (.refl κ) rounds.sees agrees

/-- The step to the next round. -/
theorem steps
    (rounds : Rounds h S T B L κ env site s element array index body c v x d pops next list
      list' s₄ s₅)
    (ground : Ground h S T) (agrees : Agrees h S T B.base B.calls κ (B.stackPlaces s) st m) :
    ∃ m', h.acts m next = some m' ∧ Agrees h S T B.base B.calls κ (B.stackPlaces s)
      (st.setBox index (.number (Engine.arithmetic .add (st.boxes index).asNumber (.ofNat 1))))
        m' := by
  have value : Means h S T κ (v.get.add (.ofNat 1))
    (.binary .add (.box index) (.value (.number (.ofNat 1)))) :=
    .binary .add rounds.index.means (.number _)
  refine (Target.box rounds.index).assigns ground rounds.next agrees .nil value ?_
  rw [evalAll, State.write]
  split
  · rfl
  · rfl

end Rounds

/-- The index of a loop over an array has the name that the source gives it, or a hidden one. -/
theorem index_named {index : Option String} {name : String}
    (named : Emits (indexName index) s [] name t) (visible : ∀ n ∈ index.toList, ¬ Hidden n) :
    index = some name ∧ ¬ Hidden name ∨ index = none ∧ Hidden name := by
  cases index with
  | none => exact .inr ⟨rfl, named.hiddenName.1 ▸ hidden_numbered (by decide) _⟩
  | some given =>
    have run := named.run
    cases run
    exact .inl ⟨rfl, visible _ (List.mem_singleton_self _)⟩

theorem forEach_runs {calls : Calls} {element : String} {index : Option String} {array : Expr}
    {body : List Stmt} {u : Term} {c : Box} {st₁ : State} (ground : Ground h S T) (ok : B.Ok h S)
    (runs : CallsRun h S T B calls)
    (settles : Settles (setting h T) calls B.mode env (.expr array) st [u] st₁)
    (box : c = (match index with
      | some _ => B.mode.box false site st₁.entries
      | none => .entered (decide (B.mode = .recursive)) st₁.entries))
    (ih : RoundsRun h S T B (site + if index.isSome then 1 else 0)
      (index.toList.map (fun name => (name, .box c)) ++ env) element u c body
      (st₁.enter c (.number (.ofNat 0))) ending st') :
    PieceRuns h S T B site env (.kind (.forEach element index array body)) st ending env st' := by
  intro L κ s t code m lowers later visible scene room sees agrees
  have roomy := room.resolve_left nofun
  have names := (visible _ (StmtKind.mem_kinds _)).2
  cases lowers with
  | @forEach _ _ _ _ _ a x s₁ name s₂ declared v s₃ zero d s₄ pops s₅ next pops' s₆ list list'
      list'' h₁ named declares
      set h₂ closes set' closes' =>
    have later₅' : (s₅.looped list'').Grows T := closes'.grows.trans later
    have later₅ : s₅.Grows T := .trans (.elsewhere ..) later₅'
    have later₄ := closes.grows.trans later₅
    have later₃ : s₃.Grows T := .trans (.elsewhere ..) (h₂.steady.grows.trans later₄)
    have later₂ := declares.extends'.grows.trans later₃
    have later₁ : s₁.Grows T := .trans (.withScopes s₁ _) (named.extends'.grows.trans later₂)
    -- the array
    obtain ⟨m₁, κ₁, value⟩ := settles_runs ground runs settles h₁ later₁ scene roomy sees agrees
    obtain ⟨means, -⟩ := List.forall₂_cons.1 value.means
    have scene₁ := scene.behind ground roomy h₁ later₁ rfl rfl rfl
    have depth := scene₁.ready.shaped.inside
    have roomy₁ : Roomy L B.depth s₁.opened := scene₁.ready.shaped.roomy _
    -- the index in a scope of its own
    have scopes₂ : s₂.scopes = s₁.opened.scopes := named.indexName.2
    have scene₂ := scene₁.opened.step ground roomy₁ named (.indexName index)
      (named.adds (.indexName index)) later₂
    have sees₂ := (value.sees.opened depth).steady named.extends'.steady scopes₂
    have roomy₂ := roomy₁.steady named.extends'.steady
    have places₂ : B.stackPlaces s₂ = B.stackPlaces s₁ :=
      (B.stackPlaces_eq scopes₂).trans (B.stackPlaces_opened depth)
    have given := index_named named fun n mem => names n (List.mem_cons_of_mem _ mem)
    obtain ⟨c', κ₂, known, bound, box'⟩ :=
      declare_known ground scene₂ sees₂ roomy₂ declares later₃ st₁.entries fun _ =>
      rfl
    obtain rfl : c' = c := by
      rw [box, box']
      rcases given with ⟨rfl, shown⟩ | ⟨rfl, hidden⟩
      · exact if_neg shown
      · exact if_pos hidden
    have adds : s₂.Adds (if index.isSome then 1 else 0) s₃ := by
      rcases given with ⟨rfl, shown⟩ | ⟨rfl, hidden⟩
      · exact declares.adds_declare (fun _ => shown) scene₂.counted
      · exact declares.adds (.declare (.inl hidden) _ _)
    have scene₃ := scene₂.step ground roomy₂ declares (Disciplined.rules.declare _ _ _) adds later₃
    obtain ⟨m₂, acts, agrees₃⟩ :=
      known.starts ground ok later₃ sees₂ later₂ (places₂ ▸ value.agrees) set
    have sees₃ : Sees h S T B κ₂ (index.toList.map (fun name => (name, .box c')) ++ env) s₃ := by
      rcases given with ⟨rfl, shown⟩ | ⟨rfl, hidden⟩
      · exact sees₂.defined ground known declares later₃ bound shown
      · exact sees₂.hid ground known declares later₃ bound hidden
    -- the rounds
    have rounds : Rounds h S T B L κ₂ _ _ s₃ element u c' body _ v x d pops next list list' s₄ s₅ :=
      ⟨rfl, h₂, closes, later₅, set', scene₃, sees₃, means.mono known.le,
        known.carries.stands ground (fun l u => sees₃.inside later₃) known.writable,
          names element List.mem_cons_self,
        visible.subset (List.subset_cons_self ..)⟩
    have steady₄ : ((s₃.looping list).withList list').Steady s₅ := .inScope h₂.steady closes
    have steady₅ : s₃.Steady (s₅.looped list'') :=
      .inLoop (((UnitState.Steady.refl (s₃.looping list)).withList list').trans steady₄) list''
    have scopes₅ : s₅.scopes = s₃.scopes := closes.scopes h₂.steady.scopes
    have steady₁ := named.extends'.steady.trans (declares.extends'.steady.trans steady₅)
    have ends := ((ih rounds agrees₃).steady (t := s₅.looped list'') scopes₅ steady₅).lift known.le
      fun _ _ => id
    -- the scope of the index is closed
    obtain ⟨-, sound⟩ :=
      closes.kept (rounds.sound ground) h₂.steady.scopes scene₃.ready.shaped.inside B.params
    exact ((ends.close ground value.sees value.agrees.within (.inScope steady₁ closes')
      (closes'.scopes steady₁.scopes)
      depth closes' ⟨sound.scopes, sound.results⟩).after (.acts acts) (.refl _)).after value.exec
        value.le

section

variable {element : String} {array : Term} {index : Box} {body : List Stmt} {st₁ : State}
  {x : Ending}

theorem rounds_leave_run (ground : Ground h S T)
    (inside : (st.boxes index).asNumber.less (.ofNat (array.eval st false).items.length) = true)
    (ih : PieceRuns h S T B site ((element, .item array (.box index)) :: env) (.stmts body) st
      (.leave 0) env₁ st₁) :
    RoundsRun h S T B site env element array index body st .next st₁ := by
  intro L κ s c v y d pops next list list' s₄ s₅ m rounds agrees
  obtain ⟨m', exec, agrees'⟩ := (rounds.runs ground agrees inside ih).left agrees.within
  rw [rounds.code]
  exact .next (.loop_leave exec) (.refl κ) rounds.sees agrees'

theorem rounds_beyond_run (ground : Ground h S T)
    (inside : (st.boxes index).asNumber.less (.ofNat (array.eval st false).items.length) = true)
    (ih : PieceRuns h S T B site ((element, .item array (.box index)) :: env)
      (.stmts body) st ending env₁ st₁)
    (out : ending.beyond = some x) :
    RoundsRun h S T B site env element array index body st x st₁ := by
  intro L κ s c v y d pops next list list' s₄ s₅ m rounds agrees
  rw [rounds.code]
  exact (rounds.runs ground agrees inside ih).beyond out

theorem rounds_round_run (ground : Ground h S T)
    (inside : (st.boxes index).asNumber.less (.ofNat (array.eval st false).items.length) = true)
    (ih : PieceRuns h S T B site ((element, .item array (.box index)) :: env)
      (.stmts body) st ending env₁ st₁)
    (way : ending = .next ∨ ending = .again 0)
    (ih' : RoundsRun h S T B site env element array index body
      (st₁.setBox index (.number (Engine.arithmetic .add (st₁.boxes index).asNumber (.ofNat 1))))
        x st') :
    RoundsRun h S T B site env element array index body st x st' := by
  intro L κ s c v y d pops next list list' s₄ s₅ m rounds agrees
  have scopes : s₅.scopes = s.scopes := rounds.closes.scopes rounds.lowers.steady.scopes
  obtain ⟨m₁, exec, way', agrees₁⟩ :=
    (rounds.runs ground agrees inside ih).passed way (B.stackPlaces_eq scopes) agrees.within
  obtain ⟨m₂, acts, agrees₂⟩ := rounds.steps ground agrees₁
  refine (ih' rounds agrees₂).lift (.refl κ) fun z m' exec' => ?_
  rw [rounds.code] at exec' ⊢
  exact .loop_round exec way' (.acts acts) exec'

end

theorem for_runs {start step : Option Stmt} {condition : Expr} {body : List Stmt} {env₂ : Env}
    {st₁ : State} (ground : Ground h S T)
    (ih : PieceRuns h S T B site env (.stmts start.toList) st .next env₁ st₁)
    (ih' : PieceRuns h S T B (site + sites (Source.kindsOf start.toList)) env₁
      (.loop condition body step.toList) st₁
      ending env₂ st') :
    PieceRuns h S T B site env (.kind (.for start condition step body)) st ending env st' := by
  intro L κ s t c m lowers later visible scene _ sees agrees
  cases lowers with
  | @«for» _ _ _ _ _ a s₁ d s₂ pops _ h₁ h₂ closes =>
    have later₂ := closes.grows.trans later
    have later₁ := h₂.steady.grows.trans later₂
    have depth := scene.ready.shaped.inside
    have roomy : Roomy L B.depth s.opened := scene.ready.shaped.roomy _
    have visible₁ : Visible (Task.stmts start.toList).kinds := visible.subset Task.kinds_start
    have visible₂ : Visible (Task.loop condition body step.toList).kinds :=
      visible.subset Task.kinds_for
    have scene₁ := scene.opened.past ground (.inr roomy) h₁ visible₁ rfl later₁
    have roomy₁ := roomy.steady h₁.steady
    have ends := ih h₁ later₁ visible₁ scene.opened (.inr roomy) (sees.opened depth)
      (B.stackPlaces_opened depth ▸ agrees)
    cases ends with
    | exit ne => exact absurd rfl ne
    | @next m₁ κ₁ exec le sees₁ agrees₁ =>
      have sound := (scene₁.past ground (.inr roomy₁) h₂ visible₂ rfl later₂).ready.sound
      have steady := h₁.steady.trans h₂.steady
      have ends := (ih' h₂ later₂ visible₂ scene₁ (.inr roomy₁) sees₁ agrees₁).lift le fun _ _ => id
      exact (ends.close ground sees agrees.within (.inScope steady closes)
        (closes.scopes steady.scopes) depth closes
        sound).after exec (.refl κ)

theorem cons_runs {first : Stmt} {rest : List Stmt} {env₂ : Env} {st₁ : State}
    (ground : Ground h S T) (ih : PieceRuns h S T B site env (.stmt first) st .next env₁ st₁)
    (ih' : PieceRuns h S T B (site + sites first.kinds) env₁ (.stmts rest) st₁ ending env₂ st') :
    PieceRuns h S T B site env (.stmts (first :: rest)) st ending env₂ st' := by
  intro L κ s t c m lowers later visible scene room sees agrees
  have roomy := room.resolve_left nofun
  cases lowers with
  | stmts_cons h₁ h₂ =>
    have later₁ := h₂.steady.grows.trans later
    have visible₁ : Visible (Task.stmt first).kinds := visible.subset (List.subset_append_left _ _)
    have scene₁ := scene.past ground (.inr roomy) h₁ visible₁ rfl later₁
    cases ih h₁ later₁ visible₁ scene (.inr roomy) sees agrees with
    | exit ne => exact absurd rfl ne
    | next exec le sees₁ agrees₁ =>
      exact (ih' h₂ later (visible.subset (List.subset_append_right _ _)) scene₁
        (.inr (roomy.steady h₁.steady)) sees₁
        agrees₁).after exec le

/-! ## Runs of statements -/

/-- What a run of the statements of a body is matched by. -/
def WorkRuns (h : Host) (S : Location → Prop) (T : UnitState) (B : Body) (site : Nat) (env : Env)
    (work : Work) (st : State) (ending : Ending) (env' : Env) (st' : State) : Prop :=
  match work with
  | .piece task => PieceRuns h S T B site env task st ending env' st'
  | .rounds element array index body =>
    RoundsRun h S T B site env element array index body st ending st'

/-- A run of the statements of a body is matched by one of their code, where calls are. -/
theorem does_runs {calls : Calls} {work : Work} (ground : Ground h S T) (ok : B.Ok h S)
    (runs : CallsRun h S T B calls)
    (does : Does (setting h T) calls B.mode site env work st ending env' st') :
    WorkRuns h S T B site env work st ending env' st' := by
  induction does with
  | stmt _ ih =>
    intro L κ s t c m lowers later visible scene room sees agrees
    cases lowers with
    | @stmt k span _ _ s₁ h₁ =>
      have roomy : Roomy L B.depth s := room.resolve_left nofun
      have ends := ih h₁ (.trans (.elsewhere ..) later) visible (scene.spanned _)
        (.inr ⟨roomy.body, roomy.loops⟩) (sees.congr rfl rfl rfl) agrees
      exact ends.congr rfl rfl rfl
  | stmts_nil =>
    intro L κ s t c m lowers later visible scene room sees agrees
    cases lowers
    exact .next (.acts rfl) (.refl κ) sees agrees
  | stmts_cons _ _ ih₁ ih₂ => exact cons_runs ground ih₁ ih₂
  | stmts_exit _ ne ih =>
    intro L κ s t c m lowers later visible scene room sees agrees
    cases lowers with
    | stmts_cons h₁ h₂ =>
      exact (ih h₁ (h₂.steady.grows.trans later)
        (visible.subset (List.subset_append_left _ _)) scene
        (.inr (room.resolve_left nofun)) sees agrees).stop ne
  | block _ ih => exact block_runs ground ih
  | define settles box fits =>
    subst box
    intro L κ s t c m lowers later visible scene room sees agrees
    exact define_runs ground ok runs settles fits lowers later
      ((visible _ (StmtKind.mem_kinds _)).2 _ (List.mem_singleton_self _)) scene
        (room.resolve_left nofun) sees agrees
  | assign settles operands found settles' done =>
    intro L κ s t c m lowers later visible scene room sees agrees
    exact assign_runs ground runs settles operands found settles' done lowers later scene
      (room.resolve_left nofun) sees
      agrees
  | call resolved _ settles settles' called =>
    intro L κ s t c m lowers later visible scene room sees agrees
    exact call_runs ground runs resolved settles settles' called lowers later scene
      (room.resolve_left nofun) sees agrees
  | expr settles =>
    intro L κ s t c m lowers later visible scene room sees agrees
    cases lowers with
    | exprKind h₁ =>
      obtain ⟨m', κ', value⟩ :=
        settles_runs ground runs settles h₁ later scene (room.resolve_left nofun) sees agrees
      exact .next value.exec value.le value.sees value.agrees
  | blockKind _ ih =>
    intro L κ s t c m lowers later visible scene room sees agrees
    cases lowers with
    | blockKind h₁ =>
      exact (ih h₁ later (visible.subset (List.subset_cons_self ..)) scene
        (.inl ⟨_, rfl⟩) sees agrees).forget
        (sees.steady h₁.steady (h₁.scopes_eq trivial))
  | «break» =>
    intro L κ s t c m lowers later visible scene room sees agrees
    cases lowers with
    | «break» list skip found reached =>
      exact unwind_runs ground found reached scene agrees (.inl ⟨rfl, rfl⟩)
  | «continue» =>
    intro L κ s t c m lowers later visible scene room sees agrees
    cases lowers with
    | «continue» list skip found reached =>
      exact unwind_runs ground found reached scene agrees (.inr ⟨rfl, rfl⟩)
  | return_none =>
    intro L κ s t c m lowers later visible scene room sees agrees
    exact return_runs ground ok runs .nil (fun _ u e => by cases e) lowers later scene
      (room.resolve_left nofun) sees agrees
  | return_some settles fits =>
    intro L κ s t c m lowers later visible scene room sees agrees
    exact return_runs ground ok runs (settles.cons .nil)
      (fun other u e => by cases e; exact fits other) lowers later
      scene (room.resolve_left nofun) sees agrees
  | cond _ ih =>
    intro L κ s t c m lowers later visible scene room sees agrees
    cases lowers with
    | @cond _ _ _ _ s₁ list h₁ =>
      have ends := (ih h₁ ((UnitState.Grows.withList s₁ list).trans later)
        (visible.subset Task.kinds_cond) scene
        (.inr (room.resolve_left nofun)) sees agrees).forget
          (sees.steady h₁.steady (h₁.scopes_eq trivial))
      exact ends.steady (t := s₁.withList list) rfl ((UnitState.Steady.refl s₁).withList list)
  | arms_nil =>
    intro L κ s t c m lowers later visible scene room sees agrees
    cases lowers
    exact .next (.acts rfl) (.refl κ) sees agrees
  | arms_otherwise _ ih =>
    intro L κ s t c m lowers later visible scene room sees agrees
    cases lowers with
    | arms_otherwise h₁ =>
      exact (ih h₁ later (visible.subset Task.kinds_otherwise) scene
        (.inl ⟨_, rfl⟩) sees agrees).forget
        (sees.steady h₁.steady (h₁.scopes_eq trivial))
  | arms_hit settles holds _ ih => exact arm_runs ground runs settles holds ih
  | arms_miss settles fails _ ih => exact arms_run ground runs settles fails ih
  | «while» _ ih =>
    intro L κ s t c m lowers later visible scene room sees agrees
    cases lowers with
    | «while» h₁ => 
      exact (ih h₁ later (visible.subset Task.kinds_while) scene
        (.inr (room.resolve_left nofun)) sees agrees).forget
        (sees.steady h₁.steady (h₁.scopes_eq trivial))
  | «for» _ _ ih ih' => exact for_runs ground ih ih'
  | for_exit _ ne ih => 
    intro L κ s t c m lowers later visible scene room sees agrees
    cases lowers with
    | «for» h₁ h₂ closes =>
      have depth := scene.ready.shaped.inside
      exact (ih h₁ (h₂.steady.grows.trans (closes.grows.trans later))
        (visible.subset Task.kinds_start) scene.opened
        (.inr (scene.ready.shaped.roomy _)) (sees.opened depth)
          (B.stackPlaces_opened depth ▸ agrees)).stop ne
  | loop_over settles fails => exact loop_over_runs ground runs settles fails
  | loop_leave settles holds _ ih => exact loop_leave_runs ground runs settles holds ih
  | loop_beyond settles holds _ out ih => exact loop_beyond_runs ground runs settles holds ih out
  | loop_step settles holds _ way _ ne ih ih' =>
    exact loop_step_runs ground runs settles holds ih way ih' ne
  | loop_round settles holds _ way _ _ ih ih' ih'' =>
    exact loop_round_runs ground runs settles holds ih way ih' ih''
  | forEach settles box _ ih => exact forEach_runs ground ok runs settles box ih
  | rounds_over outside => exact fun rounds agrees => rounds.ended agrees outside
  | rounds_leave inside _ ih => exact rounds_leave_run ground inside ih
  | rounds_beyond inside _ out ih => exact rounds_beyond_run ground inside ih out
  | rounds_round inside _ way _ ih ih' => exact rounds_round_run ground inside ih way ih'

end

end Meaning

end SkipCode
