import TypedModule.Proofs.Graph.Unfold

/-!
# What stops a walk

In a well formed graph a walk is stopped by foreign children and by nothing else: a node unfolds
to a tree exactly if there are only fragments and nodes below it, and a walk that stops complains
about a foreign child that it has reached.
-/

namespace TypedModule

variable {tree : NodeId → Except WalkFault Tree} {cs : List Child} {f : Forest} {e : WalkFault}

/-- What stops a walk through children comes behind children that make a forest. -/
theorem forestOf_stops (h : forestOf tree cs = .error e) :
    ∃ before c rest f, cs = before ++ c :: rest ∧ forestOf tree before = .ok f ∧
      ((∃ v, c = .foreign v ∧ e = .foreign v) ∨ ∃ k, c = .node k ∧ tree k = .error e) := by
  induction cs with
  | nil => cases h
  | cons c rest ih =>
    cases c with
    | text s =>
      cases hrest : forestOf tree rest with
      | ok r => rw [forestOf, hrest] at h; cases h
      | error e' =>
        rw [forestOf, hrest] at h
        obtain rfl := Except.error.inj h
        obtain ⟨before, c, after, f, rfl, hf, hc⟩ := ih hrest
        exact ⟨.text s :: before, c, after, .text s f, rfl, forestOf_text hf, hc⟩
    | node i =>
      cases hi : tree i with
      | error e' =>
        rw [forestOf, hi] at h
        obtain rfl := Except.error.inj h
        exact ⟨[], .node i, rest, .nil, rfl, rfl, Or.inr ⟨i, rfl, hi⟩⟩
      | ok t =>
        rw [forestOf, hi] at h
        cases hrest : forestOf tree rest with
        | ok r => rw [hrest] at h; cases h
        | error e' =>
          rw [hrest] at h
          obtain rfl := Except.error.inj h
          obtain ⟨before, c, after, f, rfl, hf, hc⟩ := ih hrest
          exact ⟨.node i :: before, c, after, _, rfl, forestOf_node hi hf, hc⟩
    | foreign v =>
      exact ⟨[], .foreign v, rest, .nil, rfl, rfl, Or.inl ⟨v, rfl, (Except.error.inj h).symm⟩⟩

theorem forestOf_eq_error (h : forestOf tree cs = .error e) :
    (∃ v, .foreign v ∈ cs ∧ e = .foreign v) ∨ ∃ k ∈ childIds cs, tree k = .error e := by
  obtain ⟨before, c, rest, f, rfl, -, ⟨v, rfl, rfl⟩ | ⟨k, rfl, hk⟩⟩ := forestOf_stops h
  · exact Or.inl ⟨v, List.mem_append_right _ List.mem_cons_self, rfl⟩
  · refine Or.inr ⟨k, Graph.mem_childIds_iff.2 ?_, hk⟩
    exact List.mem_append_right _ List.mem_cons_self

theorem forestOf_eq_ok (h : forestOf tree cs = .ok f) :
    (∀ v, .foreign v ∉ cs) ∧ ∀ k ∈ childIds cs, ∃ t, tree k = .ok t := by
  induction cs generalizing f with
  | nil => exact ⟨fun v => List.not_mem_nil, fun k hk => absurd hk List.not_mem_nil⟩
  | cons c rest ih =>
    cases c with
    | text s =>
      obtain ⟨r, hr, -⟩ := forestOf_text_eq_ok h
      obtain ⟨hforeign, hnodes⟩ := ih hr
      exact ⟨fun v hv => hforeign v ((List.mem_cons.1 hv).resolve_left nofun), hnodes⟩
    | node i =>
      obtain ⟨t, r, ht, hr, -⟩ := forestOf_node_eq_ok h
      obtain ⟨hforeign, hnodes⟩ := ih hr
      refine ⟨fun v hv => hforeign v ((List.mem_cons.1 hv).resolve_left nofun), fun k hk => ?_⟩
      rcases List.mem_cons.1 hk with rfl | hk
      · exact ⟨t, ht⟩
      · exact hnodes k hk
    | foreign v => cases h

namespace Graph.WellFormed

variable {g : Graph} {i : NodeId} {t : Tree} (hg : g.WellFormed)

include hg

theorem foreign_of_unfold (hi : i < g.size) (h : g.unfold i = .error e) :
    ∃ n v, g.Reaches i n ∧ .foreign v ∈ g.children n ∧ e = .foreign v := by
  induction i using hg.induct with
  | step i ih =>
    rw [hg.unfold_eq hi] at h
    cases hf : forestOf g.unfold (g.children i) with
    | ok f => rw [hf] at h; cases h
    | error e' =>
      rw [hf] at h
      obtain rfl := Except.error.inj h
      rcases forestOf_eq_error hf with ⟨v, hv, he⟩ | ⟨k, hk, hke⟩
      · exact ⟨i, v, Reaches.refl g i, hv, he⟩
      · obtain ⟨n, v, hn, hv, he⟩ := ih k hk (hg.closed hk) hke
        exact ⟨n, v, (Reaches.of_mem_kids hk).trans hn, hv, he⟩

theorem textual_of_unfold (hi : i < g.size) (h : g.unfold i = .ok t) : g.Textual i := by
  induction i using hg.induct generalizing t with
  | step i ih =>
    obtain ⟨hforeign, hnodes⟩ := forestOf_eq_ok (hg.forestOf_unfold hi h).1
    intro n hn v
    rcases reaches_iff.1 hn with rfl | ⟨k, hk, hkn⟩
    · exact hforeign v
    · obtain ⟨u, hu⟩ := hnodes k hk
      exact ih k hk (hg.closed hk) hu n hkn v

end Graph.WellFormed

end TypedModule
