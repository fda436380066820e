import BrokerBridge.Admin.Jobs

/-!
# Physical topics

`resolve_physical_topic` renames twice: a topic that neither map knows gets the prefix,
and a name that then starts with `brokerbridge.` has this start replaced by the prefix.
The second step is meant for the names of the default map. It also takes a name that
the first one has made, when the prefix itself starts that way.
-/

namespace BrokerBridge.Admin

/-- `topic_prefix.rstrip('.')` -/
def stem (topicPrefix : String) : String := (topicPrefix.dropEndWhile (· == '.')).copy

/-- The topic gets its mapped name or, without one, the prefix, a dot and the logical
topic. -/
def ResolvesTo (logical topicPrefix : String) (topicMap : List (String × String)) : Prop :=
  resolvePhysicalTopic logical { topicPrefix := some topicPrefix, topicMap := topicMap } =
    (topicMap.lookup logical).getD (stem topicPrefix ++ "." ++ logical)

/-- The topic is in one of the maps, or the prefix does not start like a default name. -/
def RenamedOnce (logical topicPrefix : String) (topicMap : List (String × String)) : Prop :=
  (topicMap.lookup logical).isSome ∨ (defaultTopicMap.lookup logical).isSome ∨
    ¬ (stem topicPrefix).startsWith "brokerbridge."

section Strings

variable {s t : String}

theorem startsWith_iff : s.startsWith t ↔ t.toList <+: s.toList :=
  String.startsWith_string_iff

/-- What `f"{prefix}.{suffix}"` makes of a name that starts with `brokerbridge.`. -/
theorem drop_brokerbridge (s : String) :
    (("brokerbridge." ++ s).drop 13).copy = s := by
  apply String.toList_inj.mp
  rw [String.toList_copy_drop, String.toList_append]
  rfl

/-- A name `s.t` starts with `brokerbridge.` only when `s` is that word, or starts so. -/
theorem startsWith_dotted (h : (s ++ "." ++ t).startsWith "brokerbridge.") :
    s = "brokerbridge" ∨ s.startsWith "brokerbridge." := by
  have hword : "brokerbridge.".toList = "brokerbridge".toList ++ ['.'] := rfl
  have hdot : (s ++ "." ++ t).toList = s.toList ++ ['.'] ++ t.toList := by
    rw [String.toList_append, String.toList_append]
    rfl
  rw [startsWith_iff, hdot] at h
  have hstart := List.prefix_append (s.toList ++ ['.']) t.toList
  rw [startsWith_iff, ← String.toList_inj]
  rcases List.prefix_or_prefix_of_prefix h hstart with hle | hle
  · rcases List.prefix_concat_iff.mp hle with heq | hle
    · rw [hword] at heq
      exact .inl (List.append_cancel_right heq).symm
    · exact .inr hle
  · rw [hword] at hle
    rcases List.prefix_concat_iff.mp hle with heq | hle
    · exact .inl (List.append_cancel_right heq)
    · -- the word has no dot in it
      have hmem : '.' ∈ "brokerbridge".toList := hle.subset (by simp)
      exact absurd hmem (by decide)

theorem startsWith_dotted_of_stem (h : s.startsWith "brokerbridge.") :
    (s ++ "." ++ t).startsWith "brokerbridge." := by
  rw [startsWith_iff] at h ⊢
  rw [String.toList_append, String.toList_append, List.append_assoc]
  exact h.trans (List.prefix_append _ _)

/-- What follows the first dot of such a name is longer than `t`. -/
theorem drop_dotted_ne (h : s.startsWith "brokerbridge.") :
    ((s ++ "." ++ t).drop 13).copy ≠ t := by
  rw [startsWith_iff] at h
  intro heq
  have hlen := congrArg (fun x => x.toList.length) heq
  simp only [String.toList_copy_drop, String.toList_append, List.length_drop,
    List.length_append] at hlen
  have hle : 13 ≤ s.toList.length := h.length_le
  have hone : ".".toList.length = 1 := rfl
  omega

end Strings

/-! ## The two steps -/

section Steps

variable {logical p : String} {topicMap : List (String × String)}

theorem stem_eq_self (h : p.toList.getLast?.any (· == '.') = false) : stem p = p := by
  rw [stem, String.dropEndWhile_eq_toSlice (String.endsWith_bool_eq_getLast?.trans h)]
  exact String.copy_toSlice

theorem resolve_of_mapped (hp : p ≠ "") {physical : String}
    (h : topicMap.lookup logical = some physical) :
    resolvePhysicalTopic logical { topicPrefix := some p, topicMap := topicMap } = physical := by
  simp [resolvePhysicalTopic, List.lookup_append, h, hp]

/-- A name of the default map, or the prefixed one; and then the second step. -/
theorem resolve_of_unmapped (hp : p ≠ "") (h : topicMap.lookup logical = none) :
    resolvePhysicalTopic logical { topicPrefix := some p, topicMap := topicMap } =
      let physical := (defaultTopicMap.lookup logical).getD (stem p ++ "." ++ logical)
      if physical.startsWith "brokerbridge." then stem p ++ "." ++ (physical.drop 13).copy
      else physical := by
  simp only [resolvePhysicalTopic, List.lookup_append, h, Option.none_or, Option.bind_some,
    if_neg hp, Option.isNone_none, Bool.true_and]
  cases defaultTopicMap.lookup logical <;> rfl

/-- A prefix that starts like a default name comes in twice. -/
theorem resolve_twice (hp : p ≠ "") (hmap : topicMap.lookup logical = none)
    (hdefault : defaultTopicMap.lookup logical = none)
    (hstem : (stem p).startsWith "brokerbridge.") : ¬ ResolvesTo logical p topicMap := by
  intro heq
  rw [ResolvesTo, resolve_of_unmapped hp hmap, hmap, hdefault] at heq
  simp only [Option.getD_none] at heq
  rw [if_pos (startsWith_dotted_of_stem hstem)] at heq
  exact drop_dotted_ne hstem ((String.append_right_inj _).mp heq)

theorem lookup_default {physical : String} (h : defaultTopicMap.lookup logical = some physical) :
    physical = "brokerbridge." ++ logical := by
  simp only [defaultTopicMap, List.lookup_cons, List.lookup_nil] at h
  repeat' split at h
  all_goals simp_all

end Steps

/-- A topic resolves to that name exactly when it is renamed once. -/
theorem resolvesTo_iff (logical topicPrefix : String) (topicMap : List (String × String))
    (hp : topicPrefix ≠ "") :
    ResolvesTo logical topicPrefix topicMap ↔ RenamedOnce logical topicPrefix topicMap := by
  unfold ResolvesTo RenamedOnce
  cases hmap : topicMap.lookup logical with
  | some physical =>
      rw [resolve_of_mapped hp hmap]
      simp
  | none =>
      rw [resolve_of_unmapped hp hmap]
      cases hdefault : defaultTopicMap.lookup logical with
      | some physical =>
          rw [lookup_default hdefault]
          have hstart : ("brokerbridge." ++ logical).startsWith "brokerbridge." := by
            rw [startsWith_iff, String.toList_append]
            exact List.prefix_append _ _
          simp [hstart, drop_brokerbridge]
      | none =>
          simp only [Option.getD_none, Option.isSome_none, Bool.false_eq_true, false_or]
          by_cases hstem : (stem topicPrefix).startsWith "brokerbridge."
          · refine iff_of_false (fun heq => ?_) (not_not_intro hstem)
            refine resolve_twice hp hmap hdefault hstem ?_
            rw [ResolvesTo, resolve_of_unmapped hp hmap, hmap, hdefault]
            exact heq
          · refine iff_of_true ?_ hstem
            split
            · next hdotted =>
                rcases startsWith_dotted hdotted with hword | hstart
                · rw [hword]
                  exact congrArg _ (drop_brokerbridge logical)
                · exact absurd hstart hstem
            · rfl

/-- A topic with one of the default names and the same prefix. -/
theorem resolvesTo_orders : ResolvesTo "orders" "brokerbridge.events" [] :=
  (resolvesTo_iff "orders" "brokerbridge.events" [] (by decide)).mpr (.inr (.inl (by decide)))

/-- The prefix of the tests, and a topic outside the default map. -/
theorem not_resolvesTo_audit : ¬ ResolvesTo "audit" "brokerbridge.events" [] := by
  refine resolve_twice (by decide) rfl (by decide) ?_
  rw [stem_eq_self (by decide)]
  decide +kernel

end BrokerBridge.Admin
