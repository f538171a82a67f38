import Nonsense.Config.Uplinks
import Nonsense.Transactions.Effects

/-!
# What a commit leaves of what was there

`Grows tree tree'`: no entry is lost, no uplink changes, and an entity keeps its
components.  A commit only ever adds entities, so what a coroutine has seen of the
running configuration stays true of it as far as this goes (`serve_grows`), even
though the tree it has seen is gone.
-/

namespace Nonsense

namespace Config

/-- `tree'` has what `tree` has. -/
structure Grows (tree tree' : Object) : Prop where
  find : ∀ k, (tree.find k).isSome → (tree'.find k).isSome
  uplink : ∀ k, (tree.find k).isSome → uplinkOf tree' k = uplinkOf tree k
  types : ∀ k e', IsEntity tree' k → tree'.find k = some e' → (tree.find k).isSome →
    IsEntity tree k ∧ ∃ e, tree.find k = some e ∧ ∀ type, type ∈ e'.itemKeys ↔ type ∈ e.itemKeys

variable {tree tree' tree'' : Object} {name : String}

theorem Grows.refl (tree : Object) : Grows tree tree :=
  ⟨fun _ h => h, fun _ _ => rfl, fun _ e hk he _ => ⟨hk, e, he, fun _ => Iff.rfl⟩⟩

theorem Grows.trans (h : Grows tree tree') (h' : Grows tree' tree'') : Grows tree tree'' := by
  refine ⟨fun k hk => h'.find k (h.find k hk), fun k hk =>
    (h'.uplink k (h.find k hk)).trans (h.uplink k hk), ?_⟩
  intro k e'' hent'' he'' hk
  obtain ⟨hent', e', he', htypes'⟩ := h'.types k e'' hent'' he'' (h.find k hk)
  obtain ⟨hent, e, he, htypes⟩ := h.types k e' hent' he' hk
  exact ⟨hent, e, he, fun type => (htypes' type).trans (htypes type)⟩

theorem Grows.uplinkOf {k u : String} (h : Grows tree tree') (hu : uplinkOf tree k = some u) :
    Config.uplinkOf tree' k = some u := by
  obtain ⟨e, he, -⟩ := Option.bind_eq_some_iff.mp hu
  rw [h.uplink k (by rw [he]; rfl), hu]

theorem mem_keys_insert_of_find {m : Object} {k k' : String} {v v' : Json}
    (h : m.find k' = some v) : k ∈ (m.insert k' v').keys ↔ k ∈ m.keys := by
  rw [OrdMap.mem_keys_insert]
  apply or_iff_right_of_imp
  rintro rfl
  exact OrdMap.mem_keys_iff.mpr ⟨v, h⟩

theorem Write.grows (w : Write name tree tree') : Grows tree tree' := by
  refine ⟨?_, fun k _ => by rw [w.uplinkOf], ?_⟩
  · intro k hk
    rcases w.find k with h | ⟨-, -, h⟩ | ⟨e, m, m', -, -, h⟩
    · rwa [h]
    · rw [h]; rfl
    · rw [h]; rfl
  · intro k e' hent he' hk
    refine ⟨w.isEntity hent, ?_⟩
    rcases w.find k with h | ⟨hkd, -, h⟩ | ⟨e, m, m', he, hem, h⟩
    · exact ⟨e', h ▸ he', fun _ => Iff.rfl⟩
    · exact absurd ⟨hkd, _, h⟩ hent.2.2
    · rw [h] at he'
      cases he'
      exact ⟨_, he, fun type => mem_keys_insert_of_find hem⟩

theorem Writes.grows (w : Writes name tree tree') : Grows tree tree' := by
  induction w with
  | refl => exact Grows.refl tree
  | tail _ w ih => exact ih.trans w.grows

/-- A new entry. -/
theorem grows_insert {entity : Json} (h : tree.find name = none) :
    Grows tree (tree.insert name entity) := by
  have hne : ∀ k, (tree.find k).isSome → k ≠ name := by
    rintro k hk rfl
    rw [h] at hk
    cases hk
  have hfind : ∀ k, (tree.find k).isSome → (tree.insert name entity).find k = tree.find k :=
    fun k hk => OrdMap.find_insert_ne _ _ (hne k hk)
  refine ⟨fun k hk => by rwa [hfind k hk], fun k hk => uplinkOf_of_find_eq (hfind k hk), ?_⟩
  intro k e' hent he' hk
  · unfold IsEntity at hent
    rw [hfind k hk] at hent he'
    exact ⟨hent, e', he', fun _ => Iff.rfl⟩

variable {parse : String → Option Json} {c c' : Config}

theorem add_grows {params : List ParameterValue} {r : ConfigResult}
    (h : add parse c name params = .returned r c') (hr : r.errorCode = 0) :
    Grows c.configuration c'.configuration := by
  obtain ⟨-, hname, entity, tree', -, hval, rfl⟩ := add_eq_zero h hr
  exact (grows_insert hname).trans (validateEntity_spec hval).1.grows

end Config

namespace Transactions

variable {parse : String → Option Json}

theorem foldlM_grows {operations : List Operation} {c c' : Config}
    (h : operations.foldlM (addOperation parse) c = some c') :
    Config.Grows c.configuration c'.configuration :=
  foldlM_keeps (I := fun c₁ => Config.Grows c.configuration c₁.configuration)
    (fun ih hadd hr => ih.trans (Config.add_grows hadd hr)) (Config.Grows.refl _) h

/-- **No call takes anything away.** -/
theorem serve_grows {t t' : Transactions} {call : Call} {replies : List Reply}
    (h : serve parse t call = some (.replied t' replies)) :
    Config.Grows t.running.configuration t'.running.configuration := by
  cases serve_effect h with
  | @commit id owner transaction c hfind hown hfold =>
    have hgrows : Config.Grows t.running.copy.configuration c.configuration := foldlM_grows hfold
    exact hgrows
  | _ => exact Config.Grows.refl _

end Transactions

end Nonsense
