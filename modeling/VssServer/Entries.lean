import VssServer.ServerInvariants

/-!
# The operations of a connection

Every entry of `m_operations` is an operation of its connection under its own id.
A connection that is done has no entries: they have become the operations that
the loop of `stop` has still to stop.

* `Entries`: what the maps of the connections have, and what is left of those that are done.
* `Step.entry`: an entry was there before, or is the operation just created.
* `Reach.entries`: the maps are so in every run.
-/

namespace GraphQLServer

open Response Permissions

variable {env : Environment} {s s' : State} {l : Label}

/-- An entry of a map was there before, or it is the operation just created. -/
theorem Step.entry (hs : Step env s l s') {c : ConnectionId} {id : String} {o : OperationId}
    (h : (s'.connections c).operations.lookup id = some o) :
    (s.connections c).operations.lookup id = some o ∨
      o = s.operationBound ∧ s'.operationBound = o + 1 ∧ (s'.operations o).connection = c ∧
        (s'.operations o).id = id := by
  have hinserted : ∀ {operations : AList fun _ : String => OperationId} {id₀ permissions sub key},
      s'.operationBound = s.operationBound + 1 ∧ s'.operations s.operationBound =
        newOperation env id₀ c permissions sub key →
      (operations.insert id₀ s.operationBound).lookup id = some o →
      operations.lookup id = some o ∨ o = s.operationBound ∧ s'.operationBound = o + 1 ∧
        (s'.operations o).connection = c ∧ (s'.operations o).id = id := by
    intro operations id₀ permissions sub key ⟨hbound, hnew⟩ hlookup
    by_cases hid : id = id₀
    · subst hid
      rw [AList.lookup_insert] at hlookup
      cases hlookup
      rw [hnew]
      exact .inr ⟨rfl, hbound, rfl, rfl⟩
    · rw [AList.lookup_insert_ne hid] at hlookup
      exact .inl hlookup
  cases hs.touches c with
  | leaves eq => exact .inl (eq ▸ h)
  | opens _ _ _ eq | rejects _ _ eq | ends _ eq =>
      rw [eq] at h
      cases h
  | starts _ _ created eq =>
      rw [eq] at h
      exact (hinserted created h).imp_left nofun
  | inserts _ _ _ created eq =>
      rw [eq] at h
      exact hinserted created h
  | permits _ eq | tearsDown _ _ eq =>
      rw [eq] at h
      exact .inl h
  | @erases id₀ _ eq =>
      rw [eq] at h
      by_cases hid : id = id₀
      · subst hid
        rw [AList.lookup_erase] at h
        cases h
      · rw [AList.lookup_erase_ne hid] at h
        exact .inl h

/-- What a map has can be looked up. -/
private theorem mem_entries {operations : AList fun _ : String => OperationId} {o : OperationId}
    (ho : o ∈ operations.entries.map Sigma.snd) : ∃ id, operations.lookup id = some o := by
  obtain ⟨⟨id, o'⟩, hmem, rfl⟩ := List.mem_map.mp ho
  exact ⟨id, AList.mem_lookup_iff.mpr hmem⟩

/-- What the loop of `stop` has still to stop was so before, or it was an entry of a
connection that is done now. -/
theorem Step.stopping (hs : Step env s l s') {remaining : List OperationId} {o : OperationId}
    (h : .stopOperations remaining ∈ s'.frames) (ho : o ∈ remaining) :
    (∃ remaining, .stopOperations remaining ∈ s.frames ∧ o ∈ remaining) ∨
      ∃ c id, (s.connections c).operations.lookup id = some o ∧ (s'.connections c).live = false := by
  rcases hs.enters h with hold | henters
  · exact .inl ⟨remaining, hold, ho⟩
  · cases henters with
    | @stopOperations c done =>
        obtain ⟨id, hlookup⟩ := mem_entries ho
        exact .inr ⟨c, id, hlookup, done⟩
    | stopRest before stopped => exact .inl ⟨_, before, List.mem_of_mem_erase ho⟩

/-- The maps of the connections, and the loop of `stop`. -/
structure Entries (s : State) : Prop where
  unknown : ∀ c, s.connectionBound ≤ c → (s.connections c).live = false
  closed : ∀ c, (s.connections c).live = false → (s.connections c).operations = ∅
  known : ∀ o, o < s.operationBound → (s.operations o).connection < s.connectionBound
  entry : ∀ c id o, (s.connections c).operations.lookup id = some o →
    o < s.operationBound ∧ (s.operations o).connection = c ∧ (s.operations o).id = id
  stopping : ∀ remaining, .stopOperations remaining ∈ s.frames → ∀ o ∈ remaining,
    o < s.operationBound ∧ (s.connections (s.operations o).connection).live = false

/-- A connection is live only if it was, or if it has just been created. -/
theorem ConnectionChange.live {c : ConnectionId} (h : ConnectionChange s s' c)
    (hlive : (s'.connections c).live = true) :
    (s.connections c).live = true ∨
      c = s.connectionBound ∧ s'.connectionBound = c + 1 ∧ (s'.connections c).handlers = true := by
  cases h with
  | same eq => exact .inl (eq ▸ hlive)
  | start new bound _ handlers => exact .inr ⟨new, bound, handlers⟩
  | change step =>
      left
      generalize s'.connections c = x' at step hlive
      cases step
      case done => cases hlive
      all_goals exact hlive

/-- A connection that is done stays so. -/
theorem Step.done (hs : Step env s l s') {c : ConnectionId} (hc : c < s.connectionBound)
    (hlive : (s.connections c).live = false) : (s'.connections c).live = false := by
  by_contra hlive'
  rcases (hs.connectionChange c).live (by simpa using hlive') with hold | ⟨hnew, -⟩
  · simp [hlive] at hold
  · exact absurd hnew hc.ne

namespace Entries

/-- An entry is one of a connection that exists. -/
theorem connection (h : Entries s) {c : ConnectionId} {id : String} {o : OperationId}
    (hlookup : (s.connections c).operations.lookup id = some o) :
    c < s.connectionBound ∧ (s.connections c).live = true := by
  have hlive : (s.connections c).live = true := by
    by_contra hdone
    rw [h.closed c (by simpa using hdone)] at hlookup
    cases hlookup
  refine ⟨?_, hlive⟩
  by_contra hc
  simp [h.unknown c (not_lt.mp hc)] at hlive

/-- A connection that does not exist yet is not live. -/
theorem step_unknown (h : Entries s) (hs : Step env s l s') :
    ∀ c, s'.connectionBound ≤ c → (s'.connections c).live = false := by
  intro c hc
  by_contra hlive
  rcases (hs.connectionChange c).live (by simpa using hlive) with hold | ⟨-, hbound, -⟩
  · simp [h.unknown c (hs.bounds.2.trans hc)] at hold
  · rw [hbound] at hc
    exact absurd hc (Nat.not_succ_le_self _)

/-- A connection that is done has no entries. -/
theorem step_closed (h : Entries s) (hs : Step env s l s') :
    ∀ c, (s'.connections c).live = false → (s'.connections c).operations = ∅ := by
  intro c hdone
  have hclosed := h.closed c
  cases hs.connectionChange c with
  | same eq =>
      rw [eq] at hdone ⊢
      exact hclosed hdone
  | start _ _ live _ => simp [hdone] at live
  | change step =>
      generalize s'.connections c = x' at step hdone
      cases step
      case insert live _ _ => simp [show (s.connections c).live = false from hdone] at live
      case erase id =>
        have hnone : (s.connections c).operations = ∅ := hclosed hdone
        rw [hnone]
        rfl
      case done => rfl
      all_goals exact hclosed hdone

/-- The connection of an operation exists. -/
theorem step_known (h : Entries s) (hs : Step env s l s') :
    ∀ o, o < s'.operationBound → (s'.operations o).connection < s'.connectionBound := by
  intro o ho
  rcases hs.created ho with hold | ⟨-, -, id, c, permissions, sub, key, heq, hc⟩
  · rw [(hs.fixed hold).2.1]
    exact (h.known o hold).trans_le hs.bounds.2
  · rw [heq]
    rcases hc with ⟨-, hbound⟩ | hconnected
    · exact hbound ▸ Nat.lt_succ_self _
    · exact hconnected.known.trans_le hs.bounds.2

/-- An entry is an operation of its connection under its id. -/
theorem step_entry (h : Entries s) (hs : Step env s l s') :
    ∀ c id o, (s'.connections c).operations.lookup id = some o →
      o < s'.operationBound ∧ (s'.operations o).connection = c ∧ (s'.operations o).id = id := by
  intro c id o hlookup
  rcases hs.entry hlookup with hold | ⟨-, hbound, hnew⟩
  · obtain ⟨hknown, hconnection, hid⟩ := h.entry c id o hold
    obtain ⟨hid', hconnection', -⟩ := hs.fixed hknown
    exact ⟨hknown.trans_le hs.bounds.1, hconnection'.trans hconnection, hid'.trans hid⟩
  · exact ⟨hbound ▸ Nat.lt_succ_self o, hnew⟩

/-- What the loop of `stop` has still to stop was on a connection that is done. -/
theorem step_stopping (h : Entries s) (hs : Step env s l s') :
    ∀ remaining, .stopOperations remaining ∈ s'.frames → ∀ o ∈ remaining,
      o < s'.operationBound ∧ (s'.connections (s'.operations o).connection).live = false := by
  intro remaining hframe o ho
  rcases hs.stopping hframe ho with ⟨remaining', hold, ho'⟩ | ⟨c, id, hlookup, hdone⟩
  · obtain ⟨hknown, hdone⟩ := h.stopping remaining' hold o ho'
    rw [(hs.fixed hknown).2.1]
    exact ⟨hknown.trans_le hs.bounds.1, hs.done (h.known o hknown) hdone⟩
  · obtain ⟨hknown, rfl, -⟩ := h.entry c id o hlookup
    rw [(hs.fixed hknown).2.1]
    exact ⟨hknown.trans_le hs.bounds.1, hdone⟩

/-- Every step keeps the maps. -/
theorem step (h : Entries s) (hs : Step env s l s') : Entries s' where
  unknown := h.step_unknown hs
  closed := h.step_closed hs
  known := h.step_known hs
  entry := h.step_entry hs
  stopping := h.step_stopping hs

end Entries

/-- The maps are so in every run. -/
theorem Reach.entries {ok : State → Label → Prop} (h : Runs.Reach (step env) ok initial s) :
    Entries s := by
  apply h.invariant (I := Entries)
  · constructor
    · intro c _
      rfl
    · intro c _
      rfl
    · intro o ho
      exact absurd ho (Nat.not_lt_zero o)
    · intro c id o hlookup
      cases hlookup
    · intro remaining hframe
      cases hframe
  · intro s l s' hs _ hstep
    exact hs.step (step_cases hstep)

end GraphQLServer
