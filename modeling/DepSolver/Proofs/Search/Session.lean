import DepSolver.Proofs.Search.Outcome
import DepSolver.Search.Session

/-!
Sessions. Whatever a session answers is what its source answers. A dialogue that is carried out in a
session that is never cancelled comes to what it comes to on the source, whether or not the session
keeps answers.
-/

namespace DepSolver

variable {α : Type} {source : VersionSource} {s : Session} {p : Parameters}

/-- A session answers as a source does, whenever it is cancelled. -/
structure Session.IsTruthful (source : VersionSource) (s : Session) : Prop where
  source_eq : s.source = source
  recalls : ∀ c, s.cache = some c → Dialogue.Recalls source c

theorem Session.isTruthful_start (source : VersionSource) (searchLimit : Parameters → Nat)
    (cancellation : Cancellation) (cached : Bool) :
    (Session.start source searchLimit cancellation cached).IsTruthful source where
  source_eq := rfl
  recalls c hc := by
    cases cached
    · cases hc
    · cases hc
      exact Dialogue.recalls_empty source

namespace Session.IsTruthful

theorem put (h : s.IsTruthful source) (q : Query) :
    (s.put q).2.IsTruthful source ∧
      ((s.put q).1 = none ∧ (s.put q).2.cancelled = true ∨
        s.cancelled = false ∧ (s.put q).1 = some (source q)) := by
  have hkeep := Dialogue.recalls_of_mem_map_keep h.recalls q
  rw [Session.put]
  split
  · rename_i hcancelled
    exact ⟨h, .inl ⟨rfl, hcancelled⟩⟩
  · rename_i hcancelled
    have hcancelled : s.cancelled = false := Bool.eq_false_iff.mpr hcancelled
    split
    · rename_i v hkept
      obtain ⟨c, hc, hv⟩ := Option.bind_eq_some_iff.mp hkept
      exact ⟨h, .inr ⟨hcancelled, by rw [h.recalls c hc q v hv]⟩⟩
    · dsimp only
      rw [h.source_eq]
      split
      · split
        · exact ⟨⟨rfl, h.recalls⟩, .inl ⟨rfl, rfl⟩⟩
        · exact ⟨⟨rfl, hkeep⟩, .inr ⟨hcancelled, rfl⟩⟩
      · exact ⟨⟨rfl, hkeep⟩, .inr ⟨hcancelled, rfl⟩⟩

end Session.IsTruthful

/-! ### What a dialogue leaves as it is -/

namespace Session

theorem searchLimit_put (s : Session) (q : Query) : (s.put q).2.searchLimit = s.searchLimit := by
  rw [put]
  split
  · rfl
  · split
    · rfl
    · dsimp only
      split
      · split <;> rfl
      · rfl

theorem run_ask (s : Session) (q : Query) :
    (handler.ask q).run s = (pure (s.put q) : Id _) := rfl

private theorem searchLimit_carryOut (s : Session) (d : Dialogue α) :
    ((d.carryOut handler).run s).2.searchLimit = s.searchLimit := by
  induction d generalizing s with
  | done a => rfl
  | poll next ih =>
      change ((if !s.cancelled then next.carryOut handler else pure none).run s).2.searchLimit = _
      split
      · exact ih s
      · rfl
  | ask q next ih =>
      have hput := s.searchLimit_put q
      rw [Dialogue.carryOut, StateT.run_bind, run_ask]
      generalize s.put q = answered at hput
      obtain ⟨answer?, s'⟩ := answered
      rw [← hput]
      cases answer? with
      | none => rfl
      | some answer => exact ih answer s'

end Session

/-! ### Sessions that are never cancelled -/

/-- A session on a source that is not cancelled and will not be. What it keeps are answers of the
source. -/
structure Session.IsLasting (source : VersionSource) (s : Session) : Prop where
  source_eq : s.source = source
  cancellation_eq : s.cancellation = .never
  cancelled_eq : s.cancelled = false
  recalls : ∀ c, s.cache = some c → Dialogue.Recalls source c

theorem Session.isLasting_start (source : VersionSource) (searchLimit : Parameters → Nat)
    (cached : Bool) : (Session.start source searchLimit .never cached).IsLasting source where
  source_eq := rfl
  cancellation_eq := rfl
  cancelled_eq := rfl
  recalls c hc := by
    cases cached
    · cases hc
    · cases hc
      exact Dialogue.recalls_empty source

namespace Session.IsLasting

theorem put (h : s.IsLasting source) (q : Query) :
    ∃ s', s.put q = (some (source q), s') ∧ s'.IsLasting source := by
  rw [Session.put, h.cancelled_eq, if_neg Bool.false_ne_true]
  split
  · rename_i v hkept
    obtain ⟨c, hc, hv⟩ := Option.bind_eq_some_iff.mp hkept
    exact ⟨s, by rw [h.recalls c hc q v hv], h⟩
  · have hfires : s.cancellation.fires (q :: s.log).length = false := by
      rw [h.cancellation_eq]
      rfl
    dsimp only
    rw [hfires, if_neg Bool.false_ne_true, h.source_eq]
    exact ⟨_, rfl, rfl, h.cancellation_eq, rfl, Dialogue.recalls_of_mem_map_keep h.recalls q⟩

theorem carryOut (h : s.IsLasting source) (d : Dialogue α) :
    ∃ s', (d.carryOut Session.handler).run s = (some (d.run source), s') ∧
      s'.IsLasting source := by
  induction d generalizing s with
  | done a => exact ⟨s, rfl, h⟩
  | poll next ih =>
      obtain ⟨s', hnext, hlasting⟩ := ih h
      refine ⟨s', ?_, hlasting⟩
      change (if !s.cancelled then next.carryOut Session.handler else pure none).run s = _
      rw [h.cancelled_eq]
      exact hnext
  | ask q next ih =>
      obtain ⟨mid, hput, hmid⟩ := h.put q
      obtain ⟨s', hnext, hlasting⟩ := ih (source q) hmid
      refine ⟨s', ?_, hlasting⟩
      rw [Dialogue.carryOut, StateT.run_bind, Session.run_ask, hput]
      exact hnext

theorem solve (h : s.IsLasting source) (p : Parameters) :
    ∃ s', s.solve p = ((Search.solve p (s.searchLimit p)).run source, s') ∧
      s'.IsLasting source ∧ s'.searchLimit = s.searchLimit := by
  obtain ⟨s', hrun, hlasting⟩ := h.carryOut (Search.solve p (s.searchLimit p))
  have hlimit := s.searchLimit_carryOut (Search.solve p (s.searchLimit p))
  rw [hrun] at hlimit
  refine ⟨s', ?_, hlasting, hlimit⟩
  rw [Session.solve, hrun]
  rfl

theorem solve_fst (h : s.IsLasting source) :
    (s.solve p).1 = (Search.solve p (s.searchLimit p)).run source := by
  obtain ⟨s', hsolve, -⟩ := h.solve p
  rw [hsolve]

end Session.IsLasting

end DepSolver
