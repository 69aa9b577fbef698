import Mathlib.Tactic
import TagTypes.Broker.Feed
import TagTypes.Proofs.Text.Split

/-!
# Names from topics

A feed whose filter is a base and the wildcard for all levels below it is told of all topics below the base, and names a schema by the levels of its topic there, joined by underscores. Two such topics give one name if and only if they are the same once each slash below the base is read as an underscore.
-/

namespace TagTypes.Broker

/-- A text without wildcards, of which there is something. -/
structure IsBase (base : String) : Prop where
  ne_empty : base ≠ ""
  plain : ∀ c ∈ base.toList, c ≠ '#' ∧ c ≠ '+'

/-- The characters of a topic with each slash read as an underscore. -/
def flattened (topic : String) : List Char := topic.toList.map fun c => if c = '/' then '_' else c

variable {base : String}

theorem base_filter (hbase : IsBase base) : TopicFilter.base (base ++ "/#") = base := by
  have hkept : (base ++ "/#").toList.filter (fun c => c ≠ '#' && c ≠ '+') = base.toList ++ ['/'] := by
    rw [String.toList_append, List.filter_append]
    congr 1
    exact List.filter_eq_self.2 fun c hc => by simpa using hbase.plain c hc
  rw [TopicFilter.base, hkept]
  simp only [List.getLast?_concat, if_true, List.dropLast_concat, String.ofList_toList]

theorem nameOf_below (hbase : IsBase base) (rest : String) :
    Feed.nameOf (base ++ "/#") (base ++ "/" ++ rest) = String.ofList (flattened rest) := by
  have htopic : (base ++ "/" ++ rest).toList = (base.toList ++ ['/']) ++ rest.toList := by
    rw [String.toList_append, String.toList_append]
    rfl
  have hfull : base.toList.isEmpty = false := by simpa using hbase.ne_empty
  have hbelow : (base.toList ++ ['/']).isPrefixOf ((base.toList ++ ['/']) ++ rest.toList) = true :=
    List.isPrefixOf_iff_prefix.2 (List.prefix_append _ _)
  have hdrop : ((base.toList ++ ['/']) ++ rest.toList).drop (base.toList.length + 1) = rest.toList := by
    rw [← List.length_singleton (a := '/'), ← List.length_append, List.drop_left]
  rw [Feed.nameOf, base_filter hbase, htopic]
  simp only [hfull, hbelow, hdrop, Bool.or_true, Bool.false_eq_true, if_false, if_true]
  rfl

/-- All that comes after the levels of the base is admitted by the wildcard. -/
theorem matchLevels_append (wild : Bool) (fs ts : List (List Char)) (hfs : fs ≠ [] ∨ wild = true) :
    TopicFilter.matchLevels wild (fs ++ [['#']]) (fs ++ ts) = true := by
  induction fs generalizing wild with
  | nil =>
    obtain rfl : wild = true := by simpa using hfs
    cases ts <;> rfl
  | cons f fs ih =>
    rw [List.cons_append, List.cons_append, TopicFilter.matchLevels, ih true (Or.inr rfl)]
    simp

theorem admits_below (base rest : String) : TopicFilter.admits (base ++ "/#") (base ++ "/" ++ rest) = true := by
  have hfilter : TopicFilter.levels (base ++ "/#") = TopicFilter.levels base ++ [['#']] := by
    rw [TopicFilter.levels, String.toList_append]
    exact Text.split_append_mark base.toList ['#']
  have htopic : TopicFilter.levels (base ++ "/" ++ rest) = TopicFilter.levels base ++ TopicFilter.levels rest := by
    rw [TopicFilter.levels, String.toList_append, String.toList_append, List.append_assoc]
    exact Text.split_append_mark base.toList rest.toList
  rw [TopicFilter.admits, hfilter, htopic]
  exact matchLevels_append _ _ _ (Or.inl (Text.split_ne_nil '/' base.toList))

/-- Two topics below the base give one name if and only if they differ in slashes and underscores only. -/
theorem nameOf_below_eq_iff (hbase : IsBase base) {rest other : String} :
    Feed.nameOf (base ++ "/#") (base ++ "/" ++ rest) = Feed.nameOf (base ++ "/#") (base ++ "/" ++ other) ↔
      flattened rest = flattened other := by
  rw [nameOf_below hbase, nameOf_below hbase, String.ofList_inj]

end TagTypes.Broker
