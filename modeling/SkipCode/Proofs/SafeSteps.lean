import SkipCode.Proofs.Intact

/-!
# Safe parts of lowering

The steps that belong together are safe together: those on the storage of instances, the arms of a
conditional, the head and the end of a loop, the ways out of both, and the bodies and regions of
calls. Between the first and the last of such steps a skip is held that nothing of the state knows
of: the skip of an arm, the skips to the end of a chain, or the exit of a loop.
-/

namespace SkipCode

open Source (Expr Stmt)

/-! ## Storage of instances -/

namespace ClassStorage

variable {α β γ : Type} {s t u : ClassStorage} {taken : List UInt32}

/-- What lies between two states of the storage, while the slots of `taken` are on loan. -/
structure Kept (taken : List UInt32) (s t : ClassStorage) : Prop where
  lends : t.pool.Lends taken
  grows : s.data.Grows t.data
  list : ∃ actions, t.list.toList = s.list.toList ++ actions ∧ Contained actions

/-- Storage that is not touched is kept. -/
theorem Kept.refl (h : s.pool.Lends taken) : Kept taken s s :=
  ⟨h, .refl _, [], by simp, .nothing⟩

/-- Storage is kept through a third. -/
theorem Kept.trans (h₁ : Kept taken s t) (h₂ : Kept taken t u) : Kept taken s u := by
  obtain ⟨first, e₁, c₁⟩ := h₁.list
  obtain ⟨second, e₂, c₂⟩ := h₂.list
  exact ⟨h₂.lends, h₁.grows.trans h₂.grows, first ++ second, by rw [e₂, e₁, List.append_assoc],
    c₁.append c₂⟩

/-- A step on the storage that is safe whatever it works on. -/
def Safe (m : Step α) : Prop :=
  ∀ taken s, s.pool.Lends taken → Attempt.Meets m s fun _ t => Kept taken s t

/-- Writing contained actions keeps the storage. -/
theorem meets_emit (lends : s.pool.Lends taken) {actions : List Action}
    (contained : Contained actions) :
    Attempt.Meets (emit actions) s fun _ t => Kept taken s t ∧ t.data = s.data :=
  .ofRun rfl ⟨⟨lends, .refl _, actions, by simp, contained⟩, rfl⟩

/-- A slot is taken and noted; it is on loan for ever. -/
theorem meets_stored (lends : s.pool.Lends taken) (owner : String)
    {f : IndexedVar → ClassData → ClassData} (grows : ∀ v, s.data.Grows (f v s.data)) :
    Attempt.Meets (do
      let v ← allocate owner
      modifyData (f v)
      return v) s fun v t => Kept taken s t ∧ t.data = f v s.data := by
  have take : Attempt.Meets (allocate owner) s fun _ t =>
      t.pool.Lends taken ∧ t.data = s.data ∧ t.list = s.list :=
    .bindRun rfl (.bindLift (.allocate _ _) fun p ok =>
      .ofRun rfl ⟨(lends.allocate ok).forget, rfl, rfl⟩)
  refine take.bind fun v t ⟨pool, data, list⟩ => .ofRun rfl ⟨⟨pool, ?_, [], ?_, .nothing⟩, ?_⟩
  · show s.data.Grows (f v t.data)
    rw [data]
    exact grows v
  · show t.list.toList = _
    rw [list, List.append_nil]
  · show f v t.data = _
    rw [data]

namespace Safe

/-- Making the table of handles never fails by a defect. -/
theorem handleTable : Safe handleTable := by
  intro taken s lends
  refine .bindRun rfl ?_
  split
  · exact .pure (.refl lends)
  · next empty =>
    have grows (v : IndexedVar) : s.data.Grows { s.data with table := some v } :=
      ⟨fun w known => (by rw [empty] at known; cases known), List.prefix_refl _,
        List.prefix_refl _⟩
    exact (meets_stored lends _ grows).mono fun _ _ h => h.1

/-- Nor does making a static field's variable. -/
theorem staticField (className field : String) : Safe (staticField className field) := by
  intro taken s lends
  refine .bindRun rfl ?_
  split
  · exact .pure (.refl lends)
  · exact (meets_stored lends _ (f := fun v d => { d with statics := d.statics ++ [(_, v)] })
      fun v => ⟨fun _ known => known, List.prefix_refl _, List.prefix_append _ _⟩).mono
        fun _ _ h => h.1

end Safe

/-- The next stack, or one that is there. -/
theorem meets_fieldStack (lends : s.pool.Lends taken) {index : Nat}
    (next : index ≤ s.data.fieldStacks.length) :
    Attempt.Meets (fieldStack index) s fun _ t =>
      Kept taken s t ∧ index < t.data.fieldStacks.length := by
  refine .bindRun rfl ?_
  dsimp only
  split
  · next found => exact .pure ⟨.refl lends, (List.getElem?_eq_some_iff.1 found).1⟩
  · rw [if_neg (by omega)]
    refine (meets_stored lends _
      (f := fun v d => { d with fieldStacks := d.fieldStacks ++ [v] }) fun v =>
        ⟨fun _ known => known, List.prefix_append _ _, List.prefix_refl _⟩).mono fun v t h =>
          ⟨h.1, ?_⟩
    rw [h.2, List.length_append, List.length_singleton]
    omega

/-- Behind it the stacks of the class are there. -/
theorem meets_prepare (lends : s.pool.Lends taken) (layout : ClassLayout) :
    Attempt.Meets (prepare layout) s fun _ t =>
      Kept taken s t ∧ layout.stackEnd ≤ t.data.fieldStacks.length := by
  have each (count start : Nat) (u : ClassStorage) (lends : u.pool.Lends taken)
      (made : start ≤ u.data.fieldStacks.length) :
      Attempt.Meets ((List.range' start count).forM fun index => discard (fieldStack index)) u
        fun _ t => Kept taken u t ∧ start + count ≤ t.data.fieldStacks.length := by
    induction count generalizing start u with
    | zero => exact .pure ⟨.refl lends, made⟩
    | succ count ih =>
      have first : Attempt.Meets (discard (fieldStack start)) u fun _ t =>
          Kept taken u t ∧ start < t.data.fieldStacks.length :=
        (meets_fieldStack lends made).bind fun _ _ h => .pure h
      refine first.bind fun _ t h => (ih (start + 1) t h.1.lends h.2).mono fun _ _ h' =>
        ⟨h.1.trans h'.1, ?_⟩
      rw [← Nat.add_right_comm, Nat.add_assoc] at h'
      exact h'.2
  have all := each layout.stackEnd 0 s lends (Nat.zero_le _)
  rw [← List.range_eq_range', Nat.zero_add] at all
  exact all

/-- Going through a list meets what each item meets. -/
theorem meets_forIn {l : List γ} {f : γ → PUnit → Step (ForInStep PUnit)} {I : ClassStorage → Prop}
    (each : ∀ c ∈ l, ∀ s, I s → Attempt.Meets (f c ⟨⟩) s fun _ t => I t) (start : I s) :
    Attempt.Meets (ForIn.forIn l PUnit.unit f) s fun _ t => I t := by
  induction l generalizing s with
  | nil => exact .pure start
  | cons c rest ih =>
    rw [List.forIn_cons]
    refine (each c (List.mem_cons_self ..) s start).bind fun step t h => ?_
    cases step with
    | done _ => exact .pure h
    | yield _ => exact ih (fun d mem => each d (List.mem_cons_of_mem _ mem)) h

namespace Safe

/-- Nor does taking a handle fail so. -/
theorem acquireHandle (config : LowerConfig) (handle : Variable) :
    Safe (acquireHandle config handle) := by
  intro taken s lends
  -- In the middle a skip leads beyond what is written, so the list is looked at only in the end.
  have emits (actions : List Action) {u : ClassStorage} (h : u.pool.Lends taken ∧
    s.data.Grows u.data) :
      Attempt.Meets (emit actions) u fun _ t => t.pool.Lends taken ∧ s.data.Grows t.data :=
    .ofRun rfl h
  have table {u : ClassStorage} (h : u.pool.Lends taken ∧ s.data.Grows u.data) :
      Attempt.Meets ClassStorage.handleTable u fun _ t =>
        t.pool.Lends taken ∧ s.data.Grows t.data :=
    (handleTable taken u h.1).mono fun _ _ k => ⟨k.lends, h.2.trans k.grows⟩
  have rest (next : List Action) {u : ClassStorage} (h : u.pool.Lends taken ∧ s.data.Grows u.data) :
      Attempt.Meets (do
        ClassStorage.emit next
        ClassStorage.emit [.skipIf (.compare handle.get .less (.ofNat config.classCapacity.toNat))
          (some 1), .abort]
        ClassStorage.emit ((← ClassStorage.handleTable).set (.ofNat 1) none [handle.get])) u
          fun _ t => t.pool.Lends taken ∧ s.data.Grows t.data :=
    (emits _ h).bind fun _ _ h => (emits _ h).bind fun _ _ h => (table h).bind fun _ _ h =>
      emits _ h
  have lift {α : Type} {x : Except LowerError α} (regular : FailsRegularly x) {u : ClassStorage}
      (h : u.pool.Lends taken ∧ s.data.Grows u.data) :
      Attempt.Meets (liftM x : Step α) u fun _ t => t.pool.Lends taken ∧ s.data.Grows t.data :=
    .lift regular fun _ _ => h
  have whole : Attempt.Meets (ClassStorage.acquireHandle config handle) s fun _ t =>
      t.pool.Lends taken ∧ s.data.Grows t.data := by
    refine (table ⟨lends, .refl _⟩).bind fun v t h =>
      (lift (.setFor _ _ _ _ _) h).bind fun next t h => ?_
    dsimp only
    split
    · exact (lift (.setFor _ _ _ _ _) h).bind fun _ _ h => (emits _ h).bind fun _ _ h =>
        (emits _ h).bind fun _ _ h => rest next h
    · exact rest next h
  refine whole.withRun fun _ t run h => ?_
  obtain ⟨table, first, next, full, mark, acquires, -, written, -⟩ := run_acquireHandle_ok run
  exact ⟨h.1, h.2, _, written, contained_acquire acquires⟩

/-- Nor does releasing one. -/
theorem release {classes : ClassTable} (built : classes.Built) (className : String)
    (handle : Element) : Safe (release classes className handle) := by
  intro taken s lends
  refine .bindLift (.layout className) fun layout hlayout =>
    (meets_prepare lends layout).bind fun _ t h => .bindLift (.allFields className)
      fun fields hfields => ?_
  obtain ⟨chain, hchain, rfl⟩ := built.allFields hfields
  have cleared := meets_forIn (s := t) (l := ClassTable.chainSlots 0 chain)
    (I := fun u => Kept taken s u ∧ layout.stackEnd ≤ u.data.fieldStacks.length)
    (f := fun field _ => do
      ClassStorage.emit ((← ClassStorage.fieldStack field.stack).set .neutral none [handle])
      return ForInStep.yield PUnit.unit) (fun field mem u h => ?_) h
  · refine cleared.bind fun _ u h => (handleTable taken u h.1.lends).bind fun table v k =>
      (meets_emit k.lends (contained_set _ _ _ _)).mono fun _ _ k' => (h.1.trans k).trans k'.1
  · have lt := built.stack_lt hlayout hchain mem
    refine (meets_fieldStack h.1.lends (by omega)).bind fun stack v k =>
      (meets_emit k.1.lends (contained_set _ _ _ _)).bind fun _ w k' => .pure
        ⟨(h.1.trans k.1).trans k'.1, ?_⟩
    rw [k'.2]
    exact Nat.le_trans h.2 k.1.grows.fieldStacks.length_le

end Safe

end ClassStorage

/-! ## Variables of instances -/

namespace UnitState.Intact

variable {s : UnitState} {held : List Nat}

/-- The storage as the state has it. -/
theorem lendsGlobal (h : s.Intact held) : s.session.global.Lends (slotsIn .global s.owned) :=
  h.lends .global

/-- A unit stays intact with storage that was kept. -/
theorem stored (h : s.Intact held) {storage : ClassStorage}
    (kept : ClassStorage.Kept (slotsIn .global s.owned)
      ⟨s.session.classData, s.session.global, s.list⟩ storage) :
    (s.stored storage).Intact held ∧ s.Steady (s.stored storage) := by
  obtain ⟨actions, e, contained⟩ := kept.list
  have longer : (s.withList storage.list).Intact held := by
    refine h.withList (h.skips.append contained e) ?_
    rw [← ActionList.length_toList storage.list, e, List.length_append]
    exact Nat.le_add_right _ _
  refine ⟨⟨longer.skips, longer.starts, longer.regions, h.exits, fun pool => ?_, h.built⟩,
    ⟨rfl, rfl, ⟨rfl, rfl, rfl, kept.grows⟩, List.suffix_refl _, Nat.le_refl _, id⟩, .refl _,
    List.forall₂_refl _, List.forall₂_refl _, List.forall₂_refl _⟩
  cases pool with
  | global => exact kept.lends
  | actor => exact h.lends .actor

end UnitState.Intact

namespace Lower

variable {α : Type} {s : UnitState} {held : List Nat}

/-- A step on the storage, with what is known of the storage behind it. -/
theorem meets_onStorage {m : ClassStorage.Step α} {P : ClassStorage → Prop} (intact : s.Intact held)
    (hm : Attempt.Meets m ⟨s.session.classData, s.session.global, s.list⟩ fun _ t =>
      ClassStorage.Kept (slotsIn .global s.owned)
        ⟨s.session.classData, s.session.global, s.list⟩ t ∧ P t) :
    (onStorage m).Meets s fun _ t =>
      (t.Intact held ∧ s.Steady t) ∧ ∃ storage, P storage ∧ t = s.stored storage :=
  (Meets.onStorage hm).mono fun _ t ⟨storage, h, e⟩ => by
    rw [e]
    exact ⟨intact.stored h.1, storage, h.2, rfl⟩

/-- Making class storage is safe in a unit. -/
theorem Safe.onStorage {m : ClassStorage.Step α} (hm : ClassStorage.Safe m) :
    Safe (Lower.onStorage m) := fun _ _ intact _ =>
  (meets_onStorage (P := fun _ => True) intact
    ((hm _ _ intact.lendsGlobal).mono fun _ _ h => ⟨h, trivial⟩)).mono fun _ _ h => h.1

/-- Behind it the stacks of the class are there. -/
theorem meets_prepare (intact : s.Intact held) (layout : ClassLayout) :
    (onStorage (ClassStorage.prepare layout)).Meets s fun _ t =>
      (t.Intact held ∧ s.Steady t) ∧ layout.stackEnd ≤ t.session.classData.fieldStacks.length :=
  (meets_onStorage (P := fun storage => layout.stackEnd ≤ storage.data.fieldStacks.length) intact
    (ClassStorage.meets_prepare intact.lendsGlobal layout)).mono fun _ t h => by
      obtain ⟨safe, storage, known, rfl⟩ := h
      exact ⟨safe, known⟩

/-- A field's stack that was made is found. -/
theorem safeAt_fieldStack (intact : s.Intact held) {index : Nat}
    (made : index < s.session.classData.fieldStacks.length) :
    (onStorage (ClassStorage.fieldStack index)).SafeAt held s :=
  (meets_onStorage (P := fun _ => True) intact
    ((ClassStorage.meets_fieldStack intact.lendsGlobal (Nat.le_of_lt made)).mono
      fun _ _ h => ⟨h.1, trivial⟩)).mono fun _ _ h => h.1

/-- Naming a field's variable is safe. -/
theorem Safe.fieldVar (className field : String) (handle : Element) :
    Safe (Lower.fieldVar className field handle) := by
  refine .bindGet fun _ _ intact _ => .bindLift (.findField className field) fun slot hslot =>
    .bindLift (.layout className) fun layout hlayout =>
      (meets_prepare intact layout).bind fun _ t h => ?_
  obtain ⟨-, chain, hchain, mem⟩ := intact.built.findField hslot
  have lt := intact.built.stack_lt hlayout hchain mem
  exact ((safeAt_fieldStack h.1.1 (Nat.lt_of_lt_of_le lt h.2)).behind h.1.2).bind
    fun _ _ h' => .pure h'

/-- So is naming a static one. -/
theorem Safe.staticVar (className field : String) : Safe (Lower.staticVar className field) :=
  .bind .get fun _ => .bind (.lift (.findStatic _ _)) fun _ => .onStorage (.staticField _ _)

/-! ## Conditionals -/

/-- The innermost scope is closed, and its pops are known for the other path. -/
theorem meets_closeCondition {s₀ : UnitState} (intact : s.Intact held)
    (steady : s₀.opened.Steady s) :
    closeCondition.Meets s fun tail t =>
      (∀ a ∈ tail, a.Straight) ∧ t.Intact held ∧ s₀.Steady t := by
  obtain ⟨scope, rest, e⟩ := steady.exists_scope (List.cons_ne_nil _ _)
  obtain ⟨σ, closed, more, intact'⟩ := run_closeScope intact e
  exact .bindRun rfl (.bindRun closed (.pure
    ⟨straight_pendingPops _ _, intact', steady.pop e more⟩))

/-- An arm is open: its skip is held. -/
theorem meets_openArm {into : Expander} {condition : Expr} (expr : Safe (lowerExpr into condition))
    (intact : s.Intact held) (inside : s.Inside) :
    (openArm into condition).Meets s fun p t => ∃ exit, p.1 = ⟨.setup, some exit⟩ ∧
      (∀ a ∈ p.2, a.Straight) ∧ t.Intact (exit :: held) ∧ s.Steady t := by
  have opened : (openCondition into condition).Meets s fun _ t =>
      t.Intact held ∧ s.opened.Steady t :=
    .bindRun (run_openScope s) (expr held s.opened intact.opened inside.opened)
  refine opened.bind fun x t ⟨intact', steady⟩ => .bindRun rfl (.bindRun rfl (.bindRun rfl ?_))
  exact (meets_closeCondition (intact'.pushSkip (some x.negate)) (steady.withList _)).bind
    fun tail u h => .pure ⟨t.list.length, rfl, h⟩

/-- Finishing a choice patches its exit. -/
theorem run_finishIf {exit : Nat} (intact : s.Intact (exit :: held)) :
    ∃ list, (IfBlock.mk .setup (some exit)).finish s.list = .ok (⟨.finished, none⟩, list) ∧
      (s.withList list).Intact held := by
  obtain ⟨list, resolved, intact'⟩ := intact.resolveHere
  refine ⟨list, ?_, intact'⟩
  show (do return ((⟨.finished, none⟩ : IfBlock), ← s.list.resolveHere exit)) = _
  rw [resolved]
  rfl

/-- An arm is closed: its skip is resolved, and one to the end of the chain may be held instead. -/
theorem meets_closeArm {exit : Nat} {tail : List Action} {chain : IfChain} (more : Bool)
    (straight : ∀ a ∈ tail, a.Straight) (intact : s.Intact (exit :: (chain.ends ++ held))) :
    (closeArm ⟨.setup, some exit⟩ tail chain more).Meets s fun chain' t =>
      t.Intact (chain'.ends ++ held) ∧ s.Steady t := by
  have contained : Contained tail := .straight straight
  unfold closeArm
  cases more with
  | true =>
    -- the arm's skip to the end of the chain is held from now on, behind those before it
    have pushed : (s.withList (s.list.pushSkip none)).Intact
        (exit :: ((chain.ends ++ [s.list.length]) ++ held)) :=
      (intact.pushSkip none).perm (by
        rw [List.perm_iff_count]
        intro p
        simp only [List.count_cons, List.count_append, List.count_nil]
        omega)
    obtain ⟨list, finished, intact'⟩ := run_finishIf pushed
    exact .bindRun rfl (.bindRun rfl (.bindRun rfl (.bindRun rfl (.bindOk finished
      (.bindRun rfl (.bindRun rfl (.pure ⟨intact'.extend contained,
        UnitState.Steady.withList (.refl s) _⟩)))))))
  | false =>
    rw [if_neg Bool.false_ne_true]
    split
    · obtain ⟨list, finished, intact'⟩ := run_finishIf intact
      exact .bindRun rfl (.bindRun rfl (.bindOk finished (.bindRun rfl (.bindRun rfl (.pure
        ⟨intact'.extend contained, UnitState.Steady.withList (.refl s) _⟩)))))
    · -- The skip round the tail waits while the one of the arm is resolved.
      have pushed : (s.withList (s.list.pushSkip none)).Intact
          (exit :: s.list.length :: (chain.ends ++ held)) :=
        (intact.pushSkip none).perm (.swap ..)
      obtain ⟨list, finished, intact'⟩ := run_finishIf pushed
      obtain ⟨list', resolved, intact''⟩ := (intact'.extend contained).resolveHere
      exact .bindRun (run_pushSkip s) (.bindRun rfl (.bindRun rfl (.bindOk finished (.bindRun rfl
        (.bindRun rfl (.bindRun (run_resolveHere_ok.2 ⟨list', resolved, rfl⟩) (.pure
          ⟨intact'', UnitState.Steady.withList (.refl s) _⟩)))))))

/-- So does closing a chain of branches. -/
theorem meets_closeChain {chain : IfChain} (intact : s.Intact (chain.ends ++ held)) :
    (closeChain chain).SafeAt held s := by
  obtain ⟨list, resolved, intact'⟩ := intact.resolveAllHere
  exact .bindRun rfl
    (.bindOk resolved (.ofRun rfl ⟨intact', UnitState.Steady.withList (.refl s) _⟩))

end Lower

/-! ## Loops -/

namespace LoopBlock

variable {b : LoopBlock} {flow : Flow}

/-- A step in its stage is not refused. -/
theorem run_expect {stage : Stage} {step : String} (h : b.stage = stage) :
    Attempt.run (expect stage step) (b, flow) = (.ok (), (b, flow)) := by
  simp only [expect, Attempt.run_bind, Attempt.run_get, Attempt.run_lift, expectStage, h, if_true]

/-- Setting an index never fails by a defect. -/
theorem meets_setIndex (value : Element → Element) :
    Attempt.Meets (setIndex value) (b, flow) fun _ p => ∃ actions, (∀ a ∈ actions, a.Straight) ∧
      p = (b, ⟨flow.list.extend actions, flow.loops⟩) := by
  refine .bindRun rfl ?_
  dsimp only
  split
  · exact .bindLift (.setFor _ _ _ _ _) fun actions h =>
      .ofRun rfl ⟨actions, straight_setFor h, rfl⟩
  · exact .pure ⟨[], nofun, rfl⟩

theorem run_resolveAllHere {positions : List Nat} {list : ActionList}
    (resolved : flow.list.resolveAllHere positions = .ok list) :
    Attempt.run (resolveAllHere positions) (b, flow) = (.ok (), (b, ⟨list, flow.loops⟩)) := by
  induction positions generalizing flow with
  | nil =>
    cases resolved
    rfl
  | cons p rest ih =>
    rw [ActionList.resolveAllHere, List.foldlM_cons] at resolved
    obtain ⟨l, first, others⟩ := except_bind_ok.1 resolved
    have step : Attempt.run (resolveAllHere (p :: rest)) (b, flow) =
        Attempt.run (resolveAllHere rest) (b, ⟨l, flow.loops⟩) := by
      have e : resolveAllHere (p :: rest) = (do
          let s ← get
          set (s.1, { s.2 with list := ← (s.2.list.resolveHere p : Except LowerError _) })) >>=
            fun _ => resolveAllHere rest := rfl
      rw [e, Attempt.run_bind]
      simp only [Attempt.run_bind, Attempt.run_get, Attempt.run_lift, first, Attempt.run_set]
    rw [step]
    exact ih others

/-- The body of the innermost loop can be closed when the skips to its next round are known. -/
theorem run_epilogue {frame : LoopFrame} {rest : List LoopFrame} {list : ActionList}
    (stage : b.stage = .guarded) (found : flow.loops.frames = frame :: rest)
    (own : frame.start = b.start)
    (resolved : flow.list.resolveAllHere frame.continues = .ok list) :
    Attempt.run epilogue (b, flow) =
      (.ok (), ({ b with breaks := frame.breaks, stage := .epilogue }, ⟨list, ⟨rest⟩⟩)) := by
  have popped : flow.loops.pop = .ok (frame, ⟨rest⟩) := by
    unfold LoopStack.pop
    rw [found]
  have all : Attempt.run (resolveAllHere frame.continues) (b, ⟨flow.list, ⟨rest⟩⟩) =
      (.ok (), (b, ⟨list, ⟨rest⟩⟩)) := run_resolveAllHere resolved
  simp only [epilogue, takeFrame, Attempt.run_bind, run_expect stage, Attempt.run_get,
    Attempt.run_lift, popped, Attempt.run_set, Attempt.run_pure, own, ne_eq, not_true_eq_false,
    if_false, all]
  rfl

/-- A loop whose body is open closes it first. -/
theorem run_finish_eq {tail : List Action} {b' : LoopBlock} {flow' : Flow}
    (stage : b.stage = .guarded) (first : Attempt.run epilogue (b, flow) = (.ok (), (b', flow')))
    (closed : b'.stage = .epilogue) :
    Attempt.run (finish tail) (b, flow) = Attempt.run (finish tail) (b', flow') := by
  unfold finish
  rw [Attempt.run_bind, Attempt.run_bind, Attempt.run_get, Attempt.run_get]
  dsimp only
  rw [if_pos stage, if_neg (by rw [closed]; decide), Attempt.run_bind, first]

/-- The end of a loop whose body is closed. -/
theorem meets_finish {exit : Nat} {tail : List Action} {others : List Nat}
    (stage : b.stage = .epilogue) (leaves : b.exit = some exit) (back : b.start < flow.list.length)
    (straight : ∀ a ∈ tail, a.Straight) (sound : flow.list.Sound (exit :: (b.breaks ++ others))) :
    Attempt.Meets (finish tail) (b, flow) fun _ p => p.2.loops = flow.loops ∧
      p.2.list.Sound others ∧ flow.list.length ≤ p.2.list.length := by
  refine .bindRun rfl ?_
  dsimp only
  rw [if_neg (by rw [stage]; decide)]
  refine .bindRun (run_expect stage) ((meets_setIndex _).bind ?_)
  rintro _ _ ⟨next, hnext, rfl⟩
  refine .bindRun rfl (.bindRun rfl ?_)
  dsimp only
  rw [leaves]
  have len : (flow.list.extend next).length = flow.list.length + next.length :=
    ActionList.length_extend _ _
  have written : ((flow.list.extend next).pushSkipTo b.start).Sound
    (exit :: (b.breaks ++ others)) :=
    (sound.extend (.straight hnext)).pushSkipTo (by omega)
  have len' : ((flow.list.extend next).pushSkipTo b.start).length =
      (flow.list.extend next).length + 1 := by
    rw [ActionList.length_pushSkipTo]
  -- the exit of the guard leads to the tail, the breaks lead behind it
  obtain ⟨l₁, ended, sound₁, same₁⟩ :=
    ActionList.Sound.resolveAllHere (r := [exit]) written
  have len₁ : (l₁.extend tail).length = l₁.length + tail.length := ActionList.length_extend _ _
  obtain ⟨l₂, left, sound₂, same₂⟩ :=
    ActionList.Sound.resolveAllHere (sound₁.extend (.straight straight))
  refine .bindRun rfl (.bindRun (run_resolveAllHere ended) (.bindRun rfl (.bindRun rfl
    (.bindRun (run_resolveAllHere left) (.ofRun rfl ⟨rfl, sound₂, ?_⟩)))))
  show flow.list.length ≤ l₂.length
  omega

end LoopBlock

namespace UnitState.Intact

variable {s : UnitState} {held : List Nat}

/-- A loop is entered: nothing waits for it yet. -/
theorem looping (h : s.Intact held) {actions : List Action} (contained : Contained actions) :
    (s.looping (s.list.extend actions)).Intact held := by
  have longer := h.extend contained
  refine ⟨longer.skips, fun f mem => ?_, longer.regions, h.exits, h.lends, h.built⟩
  rcases List.mem_cons.1 mem with rfl | mem
  · exact Nat.le_refl _
  · exact longer.starts f mem

end UnitState.Intact

namespace Lower

variable {s t : UnitState} {held : List Nat}

/-- A loop with a condition is open: its exit is held. -/
theorem meets_openLoop {into : Expander} {kind : LoopKind} {condition : Expr}
    (plain : ∀ array index, kind ≠ .forEach array index)
    (expr : Safe (lowerExpr into condition)) (intact : s.Intact held) (inside : s.Inside) :
    (openLoop into kind condition).Meets s fun p t => ∃ exit,
      p.1 = ⟨kind, .guarded, s.list.length, some exit, []⟩ ∧ s.list.length ≤ exit ∧
        (∀ a ∈ p.2, a.Straight) ∧ t.Intact (exit :: held) ∧ (s.looping s.list).Steady t := by
  have setup : Attempt.run (LoopBlock.setup s.scopes.length) (LoopBlock.new kind,
    ⟨s.list, s.loops⟩) =
      (.ok (), (⟨kind, .setup, s.list.length, none, []⟩,
        ⟨s.list, s.loops.push (.new s.list.length s.scopes.length)⟩)) := by
    cases kind with
    | forEach array index => exact absurd rfl (plain array index)
    | «while» => rfl
    | «for» => rfl
  have looping : (s.looping s.list).Intact held := intact.looping .nothing
  have opened : (openCondition into condition).Meets (s.looping s.list) fun _ t =>
      t.Intact held ∧ (s.looping s.list).opened.Steady t :=
    .bindRun (run_openScope _)
      (expr held (s.looping s.list).opened looping.opened ⟨List.cons_ne_nil _ _, inside.frames⟩)
  refine .bindRun rfl (.bindRun (run_onLoop_ok.2 ⟨_, setup, rfl⟩) (opened.bind
    fun x t ⟨intact', steady⟩ => ?_))
  have guard : Attempt.run (LoopBlock.guard (some x)) (⟨kind, .setup, s.list.length, none, []⟩,
      ⟨t.list, t.loops⟩) = (.ok (), (⟨kind, .guarded, s.list.length, some t.list.length, []⟩,
        ⟨t.list.pushSkip (some x.negate), t.loops⟩)) := by
    cases kind with
    | forEach array index => exact absurd rfl (plain array index)
    | «while» => rfl
    | «for» => rfl
  refine .bindRun (run_onLoop_ok.2 ⟨_, guard, rfl⟩) ((meets_closeCondition
    (intact'.pushSkip (some x.negate)) (steady.withList _)).bind fun tail u h =>
      .pure ⟨t.list.length, rfl, ?_, h⟩)
  -- The loop is still open, so its start is in the list.
  obtain ⟨frame, rest, grows, -, e⟩ := List.forall₂_cons_left_iff.1 steady.loops
  have := intact'.starts frame (by rw [e]; exact List.mem_cons_self ..)
  rwa [grows.start] at this

/-- The body of a loop can be closed: what leaves the loop is held until its end. -/
theorem exists_run_epilogue {block : LoopBlock} {list : ActionList} (intact : t.Intact held)
    (steady : (s.looping list).Steady t) (stage : block.stage = .guarded)
    (start : block.start = list.length) :
    ∃ breaks u, run (onLoop block LoopBlock.epilogue) t =
      some (.ok { block with breaks, stage := .epilogue }, u) ∧ u.Intact (breaks ++ held) ∧
        s.Steady u := by
  obtain ⟨frame, rest, grows, -, e⟩ := List.forall₂_cons_left_iff.1 steady.loops
  -- without this loop among the open ones, the skips that wait in it are held
  have outer : UnitState.Intact (frame.continues ++ (frame.breaks ++ held))
      { t with loops := ⟨rest⟩ } := by
    refine ⟨intact.skips.perm ?_, fun f mem => intact.starts f ?_, intact.regions, intact.exits,
      intact.lends, intact.built⟩
    · rw [List.perm_iff_count]
      intro p
      simp only [UnitState.waiting, e, List.flatMap_cons, List.count_append, LoopFrame.waiting]
      omega
    · rw [e]
      exact List.mem_cons_of_mem _ mem
  obtain ⟨list', resolved, intact'⟩ := outer.resolveAllHere
  have closed : Attempt.run LoopBlock.epilogue (block, ⟨t.list, t.loops⟩) =
      (.ok (), ({ block with breaks := frame.breaks, stage := .epilogue }, ⟨list', ⟨rest⟩⟩)) :=
    LoopBlock.run_epilogue stage e (by rw [grows.start, start]; rfl) resolved
  refine ⟨frame.breaks, _, run_onLoop_ok.2 ⟨_, closed, rfl⟩, intact', ?_⟩
  have inLoop := steady.inLoop list'
  rwa [UnitState.looped, e] at inLoop

/-- A loop whose body is closed is closed. -/
theorem meets_closeLoop {block : LoopBlock} {exit : Nat} {tail : List Action}
    (stage : block.stage = .epilogue) (leaves : block.exit = some exit) (back : block.start ≤ exit)
    (straight : ∀ a ∈ tail, a.Straight) (intact : s.Intact (block.breaks ++ exit :: held)) :
    (closeLoop block tail).SafeAt held s := by
  have waits : s.list.Sound (exit :: (block.breaks ++ (held ++ s.waiting))) := intact.skips.perm (by
    rw [List.perm_iff_count]
    intro p
    simp only [List.count_append, List.count_cons]
    omega)
  have lt := waits.lt_length (List.mem_cons_self ..)
  have finish : Attempt.Meets (LoopBlock.finish tail) (block, ⟨s.list, s.loops⟩) fun _ p =>
      p.2.loops = s.loops ∧ p.2.list.Sound (held ++ s.waiting) ∧
        s.list.length ≤ p.2.list.length :=
    LoopBlock.meets_finish stage leaves (Nat.lt_of_le_of_lt back lt) straight waits
  refine Meets.map ((Meets.onLoop (Q := fun p => p.2.loops = s.loops ∧
    p.2.list.Sound (held ++ s.waiting) ∧ s.list.length ≤ p.2.list.length) finish).mono ?_)
  rintro b _ ⟨⟨list, loops⟩, ⟨rfl, sound, le⟩, rfl⟩
  exact ⟨intact.withList sound le, UnitState.Steady.withList (.refl s) list⟩

/-- A loop is closed while its body is open. -/
theorem meets_closeLoop_guarded {block : LoopBlock} {exit : Nat} {tail : List Action}
    {list : ActionList} (intact : t.Intact (exit :: held)) (steady : (s.looping list).Steady t)
    (stage : block.stage = .guarded) (start : block.start = list.length)
    (leaves : block.exit = some exit) (back : block.start ≤ exit)
    (straight : ∀ a ∈ tail, a.Straight) :
    (closeLoop block tail).Meets t fun _ u => u.Intact held ∧ s.Steady u := by
  -- an epilogue that was left out is run at the end, as if it had been run before
  obtain ⟨breaks, u, first, intact', steady'⟩ := exists_run_epilogue intact steady stage start
  obtain ⟨flow, closed, rfl⟩ := run_onLoop_ok.1 first
  have same : run (closeLoop block tail) t =
      run (closeLoop { block with breaks, stage := .epilogue } tail)
        { t with list := flow.list, loops := flow.loops } := by
    have mapped (b : LoopBlock) (v : UnitState) : run (closeLoop b tail) v =
        run (onLoop b (LoopBlock.finish tail) >>= fun _ => pure ()) v := by
      rw [bind_pure_comp]
      rfl
    rw [mapped, mapped, run_bind, run_bind, run_onLoop, run_onLoop,
      LoopBlock.run_finish_eq stage closed rfl]
  have second : (closeLoop { block with breaks, stage := .epilogue } tail).SafeAt held _ :=
    meets_closeLoop rfl leaves back straight intact'
  exact ⟨fun a v h => by
      rw [same] at h
      have := second.ok a v h
      exact ⟨this.1, steady'.trans this.2⟩,
    fun e v h => second.error e v (same ▸ h)⟩

/-- A loop over an array is open: its exit is held. -/
theorem meets_openForEach {index : Option String} {array : Element} (intact : s.Intact held)
    (inside : s.Inside) :
    (openForEach index array).Meets s fun p t => ∃ u list exit, p.1.stage = .guarded ∧
      p.1.start = list.length ∧ p.1.exit = some exit ∧ p.1.start ≤ exit ∧
        t.Intact (exit :: held) ∧ s.Steady u ∧ (u.looping list).Steady t := by
  have named : Safe (indexName index) := by
    cases index with
    | none => exact .hiddenName _
    | some name => exact .pure name
  -- what follows once the index has its name
  have rest (name : String) (u : UnitState) (intact : u.Intact held) (inside : u.Inside) :
      (openForEachAt name array).Meets u fun p t => ∃ v list exit, p.1.stage = .guarded ∧
        p.1.start = list.length ∧ p.1.exit = some exit ∧ p.1.start ≤ exit ∧
          t.Intact (exit :: held) ∧ u.Steady v ∧ (v.looping list).Steady t := by
    refine Meets.bind (Safe.rules.declare name none false held u intact inside)
      fun v t ⟨intact', steady⟩ => .bindRun rfl ?_
    have setup : Attempt.Meets (LoopBlock.setup t.scopes.length)
        (LoopBlock.new (.forEach array v), ⟨t.list, t.loops⟩) fun _ p =>
          ∃ actions, Contained actions ∧ p =
            (⟨.forEach array v, .setup, (t.list.extend actions).length, none, []⟩,
              ⟨t.list.extend actions,
                t.loops.push (.new (t.list.extend actions).length t.scopes.length)⟩) := by
      refine .bindRun rfl ((LoopBlock.meets_setIndex _).bind ?_)
      rintro _ _ ⟨actions, straight, rfl⟩
      exact .ofRun rfl ⟨actions, .straight straight, rfl⟩
    refine ((Meets.onLoop (Q := fun p => ∃ actions, Contained actions ∧ p =
      (⟨.forEach array v, .setup, (t.list.extend actions).length, none, []⟩,
        ⟨t.list.extend actions,
          t.loops.push (.new (t.list.extend actions).length t.scopes.length)⟩)) setup).bind ?_)
    rintro _ _ ⟨_, ⟨actions, contained, ⟨⟩⟩, rfl⟩
    have looping := intact'.looping contained
    exact .bindRun (run_onLoop_ok.2 ⟨_, rfl, rfl⟩)
      (.pure ⟨t, t.list.extend actions, _, rfl, rfl, rfl,
      Nat.le_refl _, looping.pushSkip _, steady, UnitState.Steady.withList (.refl _) _⟩)
  have whole : (indexName index >>= fun name => openForEachAt name array).Meets s fun p t =>
      ∃ u list exit, p.1.stage = .guarded ∧ p.1.start = list.length ∧ p.1.exit = some exit ∧
        p.1.start ≤ exit ∧ t.Intact (exit :: held) ∧ s.Steady u ∧ (u.looping list).Steady t :=
    Meets.bind (named held s intact inside) fun name u ⟨intact', steady⟩ =>
      (rest name u intact' (steady.inside inside)).mono
        fun _ _ ⟨v, list, exit, h₁, h₂, h₃, h₄, h₅, h₆, h₇⟩ =>
          ⟨v, list, exit, h₁, h₂, h₃, h₄, h₅, steady.trans h₆, h₇⟩
  cases index with
  | none => exact whole
  | some name => exact whole

end Lower

/-! ## Ways out -/

namespace LoopStack

variable {s t : LoopStack} {depth : UInt32} {floor skip : Nat} {exit : String}

theorem waiting_set {frames : List LoopFrame} {i : Nat} {f f' : LoopFrame}
    (found : frames[i]? = some f) (one : f'.waiting.Perm (skip :: f.waiting)) :
    ((frames.set i f').flatMap LoopFrame.waiting).Perm
      (skip :: frames.flatMap LoopFrame.waiting) := by
  induction frames generalizing i with
  | nil => cases found
  | cons g rest ih =>
    cases i with
    | zero =>
      cases found
      exact one.append_right _
    | succ i => exact ((ih found).append_left g.waiting).trans List.perm_middle

theorem frame_failsRegularly (s : LoopStack) (depth : UInt32) (floor : Nat) (exit : String) :
    FailsRegularly (s.frame depth floor exit) := by
  unfold LoopStack.frame
  split
  · split
    · exact .ok _
    · exact .error (.unsupported _)
  · exact .error (.unsupported _)

theorem waiting_addBreak (h : s.addBreak depth floor skip = .ok t) :
    (t.frames.flatMap LoopFrame.waiting).Perm (skip :: s.frames.flatMap LoopFrame.waiting) := by
  obtain ⟨f, found, e⟩ := except_bind_ok.1 h
  cases e
  refine waiting_set (frame_ok found).2 ?_
  rw [List.perm_iff_count]
  intro p
  simp only [LoopFrame.waiting, List.count_append, List.count_cons, List.count_nil]
  omega

theorem waiting_addContinue (h : s.addContinue depth floor skip = .ok t) :
    (t.frames.flatMap LoopFrame.waiting).Perm (skip :: s.frames.flatMap LoopFrame.waiting) := by
  obtain ⟨f, found, e⟩ := except_bind_ok.1 h
  cases e
  refine waiting_set (frame_ok found).2 ?_
  rw [List.perm_iff_count]
  intro p
  simp only [LoopFrame.waiting, List.count_append, List.count_cons, List.count_nil]
  omega

end LoopStack

namespace UnitState.Intact

variable {s : UnitState} {held : List Nat} {skip : Nat}

/-- A skip that was held waits for a loop. -/
theorem waitLoop (h : s.Intact (skip :: held)) {loops : LoopStack}
    (waits : (loops.frames.flatMap LoopFrame.waiting).Perm
      (skip :: s.loops.frames.flatMap LoopFrame.waiting))
    (grows : List.Forall₂ LoopFrame.Grows s.loops.frames loops.frames) :
    UnitState.Intact held { s with loops } := by
  refine ⟨h.skips.perm ?_, fun f mem => ?_, h.regions, h.exits, h.lends, h.built⟩
  · rw [List.perm_iff_count] at waits ⊢
    intro p
    have := waits p
    simp only [UnitState.waiting, List.count_append, List.count_cons] at this ⊢
    omega
  · obtain ⟨i, hi, rfl⟩ := List.getElem_of_mem mem
    have hi' := grows.length_eq ▸ hi
    have same := (grows.get hi' hi).start
    rw [List.get_eq_getElem] at same
    rw [same]
    exact h.starts _ (List.getElem_mem hi')

/-- A skip that was held waits for the end of the innermost body. -/
theorem waitFrame (h : s.Intact (skip :: held)) {frame : Frame} {frames : List Frame}
    (e : s.frames = frame :: frames) : UnitState.Intact held
      { s with frames := { frame with returns := frame.returns ++ [skip] } :: frames } := by
  refine ⟨h.skips.perm ?_, h.starts, h.regions, h.exits, h.lends, h.built⟩
  rw [List.perm_iff_count]
  intro p
  simp only [UnitState.waiting, e, List.flatMap_cons, List.count_append, List.count_cons,
    List.count_nil]
  omega

end UnitState.Intact

namespace Lower

theorem Safe.frame : Safe Lower.frame := by
  refine .bindGet fun held s intact inside => ?_
  split
  · exact .pure ⟨intact, .refl s⟩
  · next e => exact absurd e inside.frames

/-- A way out of a loop waits for where it leads. -/
theorem Safe.leaveLoop {depth : UInt32} {exit : String}
    {wait : LoopStack → Nat → Nat → Except LowerError LoopStack}
    (regular : ∀ loops floor skip, FailsRegularly (wait loops floor skip))
    (waits : ∀ loops floor skip loops', wait loops floor skip = .ok loops' →
      (loops'.frames.flatMap LoopFrame.waiting).Perm
        (skip :: loops.frames.flatMap LoopFrame.waiting) ∧
      List.Forall₂ LoopFrame.Grows loops.frames loops'.frames) :
    Safe (Lower.leaveLoop depth exit wait) := by
  refine .bind .frame fun frame => .bind .get fun _ => .bind (.lift
    (LoopStack.frame_failsRegularly _ _ _ _)) fun target => .bind (.unwindTo _) fun _ => ?_
  intro held s intact _
  refine .bindRun (run_pushSkip s) (.bindRun rfl (.bindLift (regular _ _ _) fun loops h => ?_))
  obtain ⟨perm, grows⟩ := waits _ _ _ _ h
  exact .ofRun rfl ⟨(intact.pushSkip none).waitLoop perm grows, .ofLoops grows⟩

theorem Safe.leaveBreak (depth : UInt32) :
    Safe (Lower.leaveLoop depth "break" (·.addBreak depth)) :=
  .leaveLoop (fun _ _ _ => (LoopStack.frame_failsRegularly _ _ _ _).bind fun _ _ => .ok _)
    fun _ _ _ _ h => ⟨LoopStack.waiting_addBreak h, LoopStack.grows_addBreak h⟩

theorem Safe.leaveContinue (depth : UInt32) :
    Safe (Lower.leaveLoop depth "continue" (·.addContinue depth)) :=
  .leaveLoop (fun _ _ _ => (LoopStack.frame_failsRegularly _ _ _ _).bind fun _ _ => .ok _)
    fun _ _ _ _ h => ⟨LoopStack.waiting_addContinue h, LoopStack.grows_addContinue h⟩

/-- A return waits for the end of its body. -/
theorem Safe.leaveFrame (value : Option Element) : Safe (Lower.leaveFrame value) := by
  have out (depth : Nat) : Safe (do
      Lower.unwindTo depth
      Lower.addReturn (← Lower.pushSkip)) := by
    refine .bind (.unwindTo depth) fun _ held s intact inside => ?_
    obtain ⟨frame, frames, e⟩ := List.exists_cons_of_ne_nil inside.frames
    refine .bindRun (run_pushSkip s) ?_
    have waits : run (Lower.addReturn s.list.length) { s with list := s.list.pushSkip none } =
        some (.ok (), { s with
          list := s.list.pushSkip none
          frames := { frame with returns := frame.returns ++ [s.list.length] } :: frames }) := by
      simp only [Lower.addReturn, run_bind, run_get, e, run_set]
    exact .ofRun waits ⟨(intact.pushSkip none).waitFrame e, .addReturn e _ _⟩
  refine .bind .frame fun frame => ?_
  dsimp only
  split
  · exact .bind (.emit (contained_set _ _ _ _)) fun _ => out _
  · exact out _

end Lower

end SkipCode
