import VssServer.Garbage

/-!
# What is given up comes to an end

The drop of a last `Ref`, the release of a last `shared_ptr`, `garbageCollect` and
`clear` call destructors, and these drop further `Ref`s.  In a sequential history
each of them runs alone.  `toDo` bounds what it has still to do, and it has a step
to take until it is over.

* `Step.toDo_lt`: every step of a lone client lowers what is left to do.
* `releases_return`: whatever is given up comes to an end.
-/

namespace SingletonStorage

variable {K : Type}

/-- The operations that can call destructors. -/
def Op.releases : Op K → Bool
  | .drop _ | .release _ | .garbageCollect | .clear => true
  | _ => false

/-- What a `clear` has still to do beside its collection. -/
def Frame.clearing (entries : Nat) : Frame K → Nat
  | .clearLock => entries + 6
  | .gcRound _ .clear | .gcKeys _ _ _ .clear => entries + 3
  | .clearDetach remaining => remaining.length + 2
  | .clearUnlock => 1
  | _ => 0

/-- What client `n` has still to do, alone in the storage. -/
def State.toDo (s : State K) (n : Nat) : Nat :=
  s.work n + ((s.stack (.client n)).map (Frame.clearing s.children.entries.length)).sum

/-- Any client may be the one that is alone, while every thread is idle. -/
theorem Idle.releasing {s : State K} (h : Idle s) (n : Nat) : Releasing s n :=
  ⟨fun t _ => h t, fun f hf => by simp [h (.client n)] at hf⟩

variable [DecidableEq K] {p : Program K} {s₀ s s' : State K} {l : Label K} {n : Nat} {op : Op K}

/-- A call that releases is alone when it begins in an idle storage. -/
theorem Step.start_releasing (hs : Step p s (.start n op) s') (h : Idle s)
    (hop : op.releases) : Releasing s' n := by
  have hgoto : ∀ {frames : List (Frame K)}, (∀ f ∈ frames, f.destroys ∨ f.collects) →
      s'.stack = Function.update s.stack (.client n) frames → Releasing s' n := by
    intro frames hframes hstack
    refine ⟨fun t ht => ?_, fun f hf => ?_⟩
    · rw [hstack, Function.update_of_ne ht, h t]
    · exact hframes f (by simpa [hstack] using hf)
  cases hs
  case startRelease => exact h.releasing n
  case startDrop => exact hgoto (by split <;> simp [Frame.destroys]) rfl
  case startReleaseLast => exact hgoto (by simp [Frame.destroys]) rfl
  case startCollect | startClear => exact hgoto (by simp [Frame.collects]) rfl
  all_goals cases hop

/-- **Measure.**  Every step of a lone client lowers what is left to do. -/
theorem Step.toDo_lt (hs : Step p s l s') (hsound : Sound s) (hl : Running s l)
    (h : Releasing s n) : s'.toDo n < s.toDo n := by
  have hmove : ∀ {t f rest} (frames : List (Frame K)), s.stack t = f :: rest →
      s'.refs.length ≤ s.refs.length → s'.disposed.card ≤ s.disposed.card →
      s'.children = s.children → s'.stack = Function.update s.stack t (frames ++ rest) →
      (frames.map Frame.work).sum +
          (frames.map (Frame.clearing s.children.entries.length)).sum <
        f.work + f.clearing s.children.entries.length →
      s'.toDo n < s.toDo n := by
    intro t f rest frames top hrefs hdisposed hchildren hstack hlt
    obtain ⟨rfl, -⟩ := h.top top
    simp only [State.toDo, State.work, hchildren, hstack, top, Function.update_self,
      List.map_append, List.map_cons, List.sum_append, List.sum_cons]
    omega
  cases hs
  case unrefDispose o rest top attached =>
    obtain ⟨rfl, -⟩ := h.top top
    have hcard := Finset.card_insert_le o s.disposed
    simp [State.toDo, State.work, top, Frame.work, Frame.clearing]
    omega
  case dropRef v o rest top mem =>
    obtain ⟨rfl, -⟩ := h.top top
    have hlength := List.length_erase_add_one mem
    simp only [State.toDo, State.work, State.unref, State.goto_stack, Function.update_self,
      State.goto_disposed, State.modify_disposed, State.goto_children, State.modify_children, top]
    split
    all_goals
      simp [Frame.work, Frame.clearing]
      omega
  case gcRound caller rest top nonempty =>
    obtain ⟨rfl, -⟩ := h.top top
    have hpos := List.length_pos_iff.mpr nonempty
    have hle : s.disposedKeys.length ≤ s.disposed.card := List.length_take_le ..
    cases caller <;> simp [State.toDo, State.work, top, Frame.work, Frame.clearing] <;> omega
  case gcErase k keys m caller rest top =>
    obtain ⟨rfl, -⟩ := h.top top
    have hrest : rest = [] := (hsound.shaped.of_top top).1
    have hle : (s.children.erase k).entries.length ≤ s.children.entries.length :=
      (List.kerase_sublist k s.children.entries).length_le
    subst hrest
    cases caller with
    | garbageCollect => simp [State.toDo, State.work, top, Frame.work, Frame.clearing]
    | clear =>
        simp [State.toDo, State.work, top, Frame.work, Frame.clearing]
        omega
  case gcDelete caller rest top entry mem =>
    have hlength := List.length_erase_add_one mem
    refine hmove [_, _] top le_rfl le_rfl rfl rfl ?_
    cases caller <;> simp [Frame.work, Frame.clearing] <;> omega
  case clearDetach top mem free =>
    have hlength := List.length_erase_add_one mem
    refine hmove [_] top le_rfl le_rfl rfl rfl ?_
    simp [Frame.work, Frame.clearing]
    omega
  case clearChildren rest top =>
    obtain ⟨rfl, -⟩ := h.top top
    have hrest : rest = [] := (hsound.shaped.of_top top).1
    subst hrest
    simp [State.toDo, State.work, top, Frame.work, Frame.clearing]
  case gcKeysDone caller rest top =>
    refine hmove [_] top le_rfl le_rfl rfl rfl ?_
    cases caller <;> simp [Frame.work, Frame.clearing]
  case clearLock top _ | clearCollected top _ =>
    refine hmove [_] top le_rfl ?_ rfl rfl ?_
    · first | exact le_rfl | exact Nat.zero_le _
    · simp [Frame.work, Frame.clearing]
      omega
  case gcEnd top _ =>
    exact hmove [_] top le_rfl (Nat.zero_le _) rfl rfl (by simp [Frame.work, Frame.clearing])
  case unrefLock top _ | unrefDetached top _ | unrefDelete top | joinLast top _ _ | gcLock top _ =>
    exact hmove [_] top le_rfl le_rfl rfl rfl (by simp [Frame.work, Frame.clearing])
  case unrefUnlock top | joinPinned top _ _ | dropDone top _ | gcUnlock top | clearUnlock top =>
    exact hmove [] top le_rfl le_rfl rfl rfl (by simp [Frame.work, Frame.clearing])
  all_goals first
    | exact absurd rfl (hl _ _)
    | rcases (h.top ‹s.stack _ = _›).2 with hdestroys | hcollects
      · cases hdestroys
      · cases hcollects

/-- What such a call has to do when it begins. -/
theorem Step.start_toDo (hs : Step p s (.start n op) s') (h : Idle s) (hop : op.releases) :
    s'.toDo n ≤
      10 * s.refs.length + 6 * s.pendingGarbageCollect + s.children.entries.length + 6 := by
  cases hs
  case startDrop live idle =>
    have hlength := List.length_erase_add_one live
    simp only [State.toDo, State.work, State.unref, State.goto_stack, Function.update_self,
      State.goto_disposed, State.modify_disposed, State.pendingGarbageCollect]
    split <;> simp [Frame.work, Frame.clearing] <;> omega
  case startRelease =>
    simp [State.toDo, State.work, State.pendingGarbageCollect, h (.client n)]
    omega
  case startReleaseLast | startCollect | startClear =>
    simp [State.toDo, State.work, State.pendingGarbageCollect, Frame.work, Frame.clearing]
    omega
  all_goals cases hop

/-- The client is alone as long as its call takes. -/
theorem During.releasing (hidle : Idle s₀) (hop : op.releases) (h : During p s₀ n op s) :
    Releasing s n :=
  h.along (fun _ hs => hs.start_releasing hidle hop) fun _ _ _ _ _ hI hok hs =>
    hs.releasing hok hI

/-- The keys that a round has taken and has not come to have entries. -/
theorem During.keysFound [Inhabited K] (h₀ : Runs.Reach (step p) Sequential initial s₀)
    (hidle : Idle s₀) (hop : op.releases) (h : During p s₀ n op s) :
    ∀ f ∈ s.stack (.client n), f.Found s.children := by
  refine h.along (I := fun s => ∀ f ∈ s.stack (.client n), f.Found s.children)
    (fun s₁ hs f hf => ?_) fun m l m' hm _ hI hok hs => ?_
  · rcases hs.enters hf with hold | ⟨-, henters⟩ | hlaunches
    · simp [hidle (.client n)] at hold
    · cases henters with
      | gcKeys top _ | gcErased top | gcDeleting _ top _ _ => simp [hidle _] at top
      | _ => trivial
    · cases hlaunches
  · obtain ⟨hsound, -, htracked⟩ := Reach.tracked (Reach.orderly (hm.reach h₀ hidle))
    exact hs.keysFound hsound htracked hok (hm.releasing hidle hop) hI

/-- **What is given up comes to an end.**  From every idle state of a sequential
history, a drop, the release of a `shared_ptr`, a `garbageCollect` or a `clear` takes
a bounded number of steps, whatever the destructors it calls drop, violates no
assertion, and goes on until every thread is idle again. -/
theorem releases_return [Inhabited K] (h : Runs.Reach (step p) Sequential initial s)
    (hidle : Idle s) (hop : op.releases) {ls : List (Label K)}
    (hrun : Runs.run (step p) s (.start n op :: ls) = some s')
    (hok : ∀ l ∈ ls, ∀ n op, l ≠ .start n op) :
    ls.length ≤
        10 * s.refs.length + 6 * s.pendingGarbageCollect + s.children.entries.length + 6 ∧
      Asserted s' ∧ (Idle s' ∨ ∃ l, Running s' l ∧ (step p s' l).isSome) := by
  obtain ⟨s₁, hfirst, hrest⟩ := Option.bind_eq_some_iff.mp hrun
  have hmeets : Runs.RunMeets (step p) Running s₁ ls :=
    Runs.runMeets_of_labels fun l hl _ => hok l hl
  have hduring : During p s n op s' := ⟨s₁, hfirst, Runs.reach_of_run hrest hmeets⟩
  have hreleasing := hduring.releasing hidle hop
  have hreach := hduring.reach h hidle
  have hfound := hduring.keysFound h hidle hop
  refine ⟨?_, hreleasing.asserted hreach hfound,
    hreleasing.enabled (Reach.sound hreach) (Reach.attended hreach) hfound⟩
  have hstart := (step_cases hfirst).start_toDo hidle hop
  have hle : ls.length + s'.toDo n ≤ s₁.toDo n := by
    refine Runs.run_length_le (I := During p s n op) (w := fun s => s.toDo n)
      (fun m l m' hm hok hs => ⟨hm.next hok hs, ?_⟩) ⟨s₁, hfirst, .refl⟩ hrest hmeets
    exact (step_cases hs).toDo_lt (Reach.sound (hm.reach h hidle)) hok (hm.releasing hidle hop)
  omega

/-- Client 0 goes on to get a type that depends on nothing. -/
def holdLight : List (Label String) :=
  dropDependent ++ [.start 0 (.get "Light"), .next (.client 0), .next (.client 0),
    .next (.client 0), .next (.client 0), .next (.client 0), .next (.client 0)]

/-- The client holds its singletons in an idle storage without cycles. -/
theorem holdLight_idle {s : State String}
    (hrun : Runs.run (step dependents) initial holdLight = some s) :
    Runs.Reach (step dependents) Sequential initial s ∧ Idle s ∧
      Reachability.Acyclic s.DependsOn := by
  have hsolo : ∀ l ∈ holdLight, l.tid = .client 0 := by decide
  obtain ⟨hstack, hrefs⟩ :
      s.stack (.client 0) = [] ∧ s.refs = [(.client, 2), (.value 0, 1)] := by
    cases hrun
    exact ⟨rfl, rfl⟩
  refine ⟨reach_of_solo dependents_async hsolo (fun _ _ => rfl) hrun,
    idle_of_solo dependents_async hsolo (fun _ _ => rfl) hrun hstack, ?_⟩
  refine .of_rank id fun v o hr => ?_
  have hone : (Holder.value v, o) ∈ s.refs := hr
  simp [hrefs] at hone
  simp [hone]

/-- The steps of a `clear`: two rounds, and the type that is held is detached. -/
def clearDependent : List (Label String) :=
  [.next (.client 0), .next (.client 0), .pickKey (.client 0) "DependOnSomeType",
    .next (.client 0), .pick (.client 0) 1, .next (.client 0), .next (.client 0),
    .next (.client 0), .next (.client 0), .next (.client 0), .next (.client 0),
    .next (.client 0), .pickKey (.client 0) "SomeType", .next (.client 0), .next (.client 0),
    .next (.client 0), .next (.client 0), .next (.client 0), .pick (.client 0) 2,
    .next (.client 0), .next (.client 0)]

/-- No client begins a call while the storage is cleared. -/
theorem clearDependent_running : ∀ l ∈ clearDependent, ∀ n op, l ≠ .start n op := by
  simp [clearDependent]

/-- The `clear` of three singletons returns within its bound. -/
theorem releases_return_dependent :
    ∃ s s', Runs.run (step dependents) initial holdLight = some s ∧
      Runs.run (step dependents) s (.start 0 .clear :: clearDependent) = some s' ∧
      clearDependent.length ≤
        10 * s.refs.length + 6 * s.pendingGarbageCollect + s.children.entries.length + 6 ∧
      Asserted s' := by
  have hrun : Runs.run (step dependents) initial holdLight = some _ := rfl
  obtain ⟨hreach, hidle, -⟩ := holdLight_idle hrun
  have hclear : Runs.run (step dependents)
      ((Runs.run (step dependents) initial holdLight).get rfl)
      (.start 0 .clear :: clearDependent) = some _ := rfl
  obtain ⟨hlength, hasserted, -⟩ :=
    releases_return hreach hidle rfl hclear clearDependent_running
  exact ⟨_, _, hrun, hclear, hlength, hasserted⟩

end SingletonStorage
