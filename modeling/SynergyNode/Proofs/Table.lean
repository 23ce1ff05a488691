import SynergyNode.Bytes

/-!
# Finite maps

Facts about entering and erasing that the tables of the store, of the pools and of the accounts
share.
-/

namespace SynergyNode.Table

variable {α β : Type} [Ord α] [Std.TransOrd α] [Std.LawfulEqOrd α]
  {m : Std.ExtTreeMap α β} {k : α} {v : β}

/-- Entering under a key changes nothing under another. -/
theorem getElem?_insert_of_ne {k' : α} (h : k ≠ k') : (m.insert k v)[k']? = m[k']? := by
  rw [Std.ExtTreeMap.getElem?_insert, if_neg fun heq => h (Std.LawfulEqCmp.eq_of_compare heq)]

/-- Erasing a key changes nothing under another. -/
theorem getElem?_erase_of_ne {k' : α} (h : k ≠ k') : (m.erase k)[k']? = m[k']? := by
  rw [Std.ExtTreeMap.getElem?_erase, if_neg fun heq => h (Std.LawfulEqCmp.eq_of_compare heq)]

/-- Erasing what is not there changes nothing. -/
theorem erase_of_absent (h : m[k]? = none) : m.erase k = m := by
  refine Std.ExtTreeMap.ext_getElem? fun k' => ?_
  rw [Std.ExtTreeMap.getElem?_erase]
  split
  · rename_i heq
    rw [← Std.LawfulEqCmp.eq_of_compare heq, h]
  · rfl

/-- Entering what is there changes nothing. -/
theorem insert_of_present (h : m[k]? = some v) : m.insert k v = m := by
  refine Std.ExtTreeMap.ext_getElem? fun k' => ?_
  rw [Std.ExtTreeMap.getElem?_insert]
  split
  · rename_i heq
    rw [← Std.LawfulEqCmp.eq_of_compare heq, h]
  · rfl

/-- Erasing what was just entered undoes it, when nothing was there before. -/
theorem erase_insert_of_absent (h : m[k]? = none) : (m.insert k v).erase k = m := by
  refine Std.ExtTreeMap.ext_getElem? fun k' => ?_
  rw [Std.ExtTreeMap.getElem?_erase, Std.ExtTreeMap.getElem?_insert]
  split
  · rename_i heq
    rw [← Std.LawfulEqCmp.eq_of_compare heq, h]
  · rfl

/-- What was there does not matter for what is entered. -/
theorem insert_erase (m : Std.ExtTreeMap α β) (k : α) (v : β) :
    (m.erase k).insert k v = m.insert k v := by
  refine Std.ExtTreeMap.ext_getElem? fun k' => ?_
  rw [Std.ExtTreeMap.getElem?_insert, Std.ExtTreeMap.getElem?_insert,
    Std.ExtTreeMap.getElem?_erase]
  split <;> rfl

theorem nodup_toList (m : Std.ExtTreeMap α β) : m.toList.Nodup := by
  refine m.distinct_keys_toList.imp fun {e e'} hne heq => hne ?_
  rw [heq]
  exact Std.ReflCmp.compare_self

/-- A new key adds its entry and leaves the others. -/
theorem toList_insert_of_absent (h : m[k]? = none) (v : β) :
    (m.insert k v).toList.Perm ((k, v) :: m.toList) := by
  have hnot : (k, v) ∉ m.toList := by
    rw [Std.ExtTreeMap.mem_toList_iff_getElem?_eq_some, h]
    exact nofun
  rw [List.perm_ext_iff_of_nodup (nodup_toList _) (List.nodup_cons.mpr ⟨hnot, nodup_toList m⟩)]
  rintro ⟨k', v'⟩
  rw [Std.ExtTreeMap.mem_toList_iff_getElem?_eq_some, Std.ExtTreeMap.getElem?_insert,
    List.mem_cons, Std.ExtTreeMap.mem_toList_iff_getElem?_eq_some]
  by_cases heq : k = k'
  · subst heq
    simp [h, eq_comm]
  · have hne : compare k k' ≠ .eq := fun hc => heq (Std.LawfulEqCmp.eq_of_compare hc)
    simp [hne, Ne.symm heq]

/-- Entries that are the same in the order of their keys are the same list. -/
theorem eq_of_ordered {es es' : List (α × β)}
    (h : es.Pairwise fun e e' => compare e.1 e'.1 = .lt)
    (h' : es'.Pairwise fun e e' => compare e.1 e'.1 = .lt) (hmem : ∀ e, e ∈ es ↔ e ∈ es') :
    es = es' := by
  have hnodup {es : List (α × β)} (h : es.Pairwise fun e e' => compare e.1 e'.1 = .lt) :
      es.Nodup := by
    refine h.imp fun {e e'} hlt heq => ?_
    have hself : compare e.1 e'.1 = .eq := heq ▸ Std.ReflCmp.compare_self
    rw [hself] at hlt
    cases hlt
  refine List.Perm.eq_of_pairwise (fun e e' _ _ hlt hgt => ?_) h h'
    ((List.perm_ext_iff_of_nodup (hnodup h) (hnodup h')).mpr hmem)
  exact absurd hgt (Std.OrientedCmp.not_lt_of_lt hlt)

/-- An entry under a key behind all others comes last. -/
theorem toList_insert_of_last (h : ∀ k' v', m[k']? = some v' → compare k' k = .lt) (v : β) :
    (m.insert k v).toList = m.toList ++ [(k, v)] := by
  have habsent : m[k]? = none := by
    cases hk : m[k]? with
    | none => rfl
    | some v' =>
      have hself : compare k k = .eq := Std.ReflCmp.compare_self
      rw [h k v' hk] at hself
      cases hself
  refine eq_of_ordered Std.ExtTreeMap.ordered_keys_toList ?_ fun e => ?_
  · refine List.pairwise_append.mpr
      ⟨Std.ExtTreeMap.ordered_keys_toList, List.pairwise_singleton _ _, fun e he e' he' => ?_⟩
    rw [List.mem_singleton] at he'
    subst he'
    exact h e.1 e.2 (Std.ExtTreeMap.mem_toList_iff_getElem?_eq_some.mp he)
  · rw [(toList_insert_of_absent habsent v).mem_iff, List.mem_cons, List.mem_append,
      List.mem_singleton, or_comm]

/-- Erasing a key takes its entry out and leaves the others in their order. -/
theorem toList_erase (m : Std.ExtTreeMap α β) (k : α) :
    (m.erase k).toList = m.toList.filter fun e => compare k e.1 != .eq := by
  refine eq_of_ordered Std.ExtTreeMap.ordered_keys_toList
    (Std.ExtTreeMap.ordered_keys_toList.filter _) ?_
  rintro ⟨k', v'⟩
  rw [List.mem_filter, Std.ExtTreeMap.mem_toList_iff_getElem?_eq_some,
    Std.ExtTreeMap.mem_toList_iff_getElem?_eq_some, Std.ExtTreeMap.getElem?_erase]
  by_cases heq : compare k k' = .eq <;> simp [heq]

/-- An entry that is there and the others are all entries. -/
theorem toList_of_present (h : m[k]? = some v) : m.toList.Perm ((k, v) :: (m.erase k).toList) := by
  have hback := toList_insert_of_absent (m := m.erase k) Std.ExtTreeMap.getElem?_erase_self v
  rwa [insert_erase, insert_of_present h] at hback

omit [Std.LawfulEqOrd α] in
/-- Entering entries adds at most as many keys. -/
theorem size_foldl_insert_le (es : List (α × β)) (m : Std.ExtTreeMap α β) :
    (es.foldl (fun m' e => m'.insert e.1 e.2) m).size ≤ m.size + es.length := by
  induction es generalizing m with
  | nil => exact Nat.le_refl _
  | cons e es ih =>
    have hentry : (m.insert e.1 e.2).size ≤ m.size + 1 := Std.ExtTreeMap.size_insert_le
    have hlater := ih (m.insert e.1 e.2)
    rw [List.foldl_cons, List.length_cons]
    omega

/-- What is found after entering entries was there before or is one of them. -/
theorem mem_of_mem_foldl_insert {es : List (α × β)} {e : α × β}
    (h : e ∈ (es.foldl (fun m' e => m'.insert e.1 e.2) m).toList) : e ∈ m.toList ∨ e ∈ es := by
  induction es generalizing m with
  | nil => exact .inl h
  | cons new es ih =>
    rcases ih h with hbefore | hlater
    · rw [Std.ExtTreeMap.mem_toList_iff_getElem?_eq_some, Std.ExtTreeMap.getElem?_insert] at hbefore
      split at hbefore
      · rename_i hkey
        have hsame : new = e :=
          Prod.ext (Std.LawfulEqCmp.eq_of_compare hkey) (Option.some.inj hbefore)
        exact .inr (hsame ▸ List.mem_cons_self)
      · exact .inl (Std.ExtTreeMap.mem_toList_iff_getElem?_eq_some.mpr hbefore)
    · exact .inr (List.mem_cons_of_mem _ hlater)

/-- Entering the entries of a map one by one gives the map back. -/
theorem foldl_insert_toList (m : Std.ExtTreeMap α β) :
    m.toList.foldl (fun m' e => m'.insert e.1 e.2) (∅ : Std.ExtTreeMap α β) = m := by
  rw [← Std.ExtTreeMap.ofList_eq_foldl]
  refine Std.ExtTreeMap.ext_getElem? fun k => ?_
  cases hk : m[k]? with
  | some v =>
    exact Std.ExtTreeMap.getElem?_ofList_of_mem Std.ReflCmp.compare_self
      Std.ExtTreeMap.distinct_keys_toList
      (Std.ExtTreeMap.mem_toList_iff_getElem?_eq_some.mpr hk)
  | none =>
    classical
    refine Std.ExtTreeMap.getElem?_ofList_of_contains_eq_false ?_
    have hnot : k ∉ m := by simpa using hk
    simpa using hnot

/-- Entries with new keys, each another one, are all added. -/
theorem toList_foldl_insert_of_absent {es : List (α × β)} (hkeys : (es.map Prod.fst).Nodup)
    (habsent : ∀ e ∈ es, m[e.1]? = none) :
    (es.foldl (fun m' e => m'.insert e.1 e.2) m).toList.Perm (es ++ m.toList) := by
  induction es generalizing m with
  | nil => exact .refl _
  | cons e es ih =>
    obtain ⟨hfirst, hkeys⟩ := List.nodup_cons.mp hkeys
    have hlater : ∀ e' ∈ es, (m.insert e.1 e.2)[e'.1]? = none := by
      intro e' he'
      have hne : ¬ compare e.1 e'.1 = .eq := fun heq =>
        hfirst (Std.LawfulEqCmp.eq_of_compare heq ▸ List.mem_map_of_mem he')
      rw [Std.ExtTreeMap.getElem?_insert, if_neg hne, habsent e' (List.mem_cons_of_mem _ he')]
    have hone := toList_insert_of_absent (habsent e List.mem_cons_self) e.2
    exact (ih hkeys hlater).trans ((hone.append_left es).trans List.perm_middle)

/-- **Entering entries loses none** exactly when no key is repeated. -/
theorem toList_foldl_insert_perm_iff (es : List (α × β)) :
    (es.foldl (fun m' e => m'.insert e.1 e.2) (∅ : Std.ExtTreeMap α β)).toList.Perm es ↔
      (es.map Prod.fst).Nodup := by
  constructor
  · intro h
    rw [← (h.map Prod.fst).nodup_iff, Std.ExtTreeMap.map_fst_toList_eq_keys]
    exact Std.ExtTreeMap.nodup_keys
  · intro hkeys
    have hempty : (∅ : Std.ExtTreeMap α β).toList = [] := rfl
    have hall := toList_foldl_insert_of_absent hkeys fun e _ =>
      Std.ExtTreeMap.getElem?_empty (α := α) (β := β) (a := e.1)
    rwa [hempty, List.append_nil] at hall

/-- **Entering entries keeps their order** exactly when the keys ascend. -/
theorem toList_foldl_insert_eq_iff (es : List (α × β)) :
    (es.foldl (fun m' e => m'.insert e.1 e.2) (∅ : Std.ExtTreeMap α β)).toList = es ↔
      es.Pairwise fun e e' => compare e.1 e'.1 = .lt := by
  constructor
  · intro h
    exact h ▸ Std.ExtTreeMap.ordered_keys_toList
  · intro hsorted
    have hkeys : (es.map Prod.fst).Nodup := by
      rw [List.Nodup, List.pairwise_map]
      refine hsorted.imp fun {e e'} hlt heq => ?_
      have heq' : compare e.1 e'.1 = .eq := heq ▸ Std.ReflCmp.compare_self
      rw [heq'] at hlt
      cases hlt
    exact eq_of_ordered Std.ExtTreeMap.ordered_keys_toList hsorted fun _ =>
      ((toList_foldl_insert_perm_iff es).mpr hkeys).mem_iff

end SynergyNode.Table
