import Mathlib.Tactic
import TagTypes.Proofs.Schema.Reader
import TagTypes.TagStore.Basic
import TagTypes.Udt.Build

/-!
# Written definitions

A definition made for a schema that was read is legible. Definitions that differ are written differently. Any definition, legible or not, keeps its name if its text can be read at all, so it is imported under that name or not at all.
-/

namespace TagTypes.Udt

open Json (Legible)

/-! ### Definitions of schemas that were read -/

/-- The value to begin with can be written and read again. -/
def Kind.LegibleValue : Kind → Prop
  | .instanceOf _ => True
  | .atomic _ value => Legible 0 value

def Definition.LegibleValues (d : Definition) : Prop := ∀ m ∈ d.members, m.kind.LegibleValue

theorem legible_member {m : Member} (hm : m.kind.LegibleValue) : Legible 2 m.toJson := by
  obtain ⟨name, tooltip, kind⟩ := m
  have hrights : Legible 1 (.obj [("accessRights", .str "Read_Only")]) := .obj (by simp) (by simp [Legible.str])
  cases kind with
  | instanceOf typeId =>
    cases tooltip <;> exact .obj (by simp [textFields, Kind.fields]) (by simp [textFields, Kind.fields, Legible.str])
  | atomic dataType value =>
    have hvalue : Legible 1 value := Legible.mono hm (by omega)
    cases tooltip <;> cases value <;>
      exact .obj (by simp [textFields, Kind.fields, valueFields])
        (by simp [textFields, Kind.fields, valueFields, Legible.str, hrights, hvalue])

theorem Definition.LegibleValues.legible {d : Definition} (hd : d.LegibleValues) : Legible 4 d.toJson := by
  obtain ⟨name, documentation, parentType, members⟩ := d
  have htags : Legible 3 (.arr (members.map Member.toJson)) := by
    refine .arr fun v hv => ?_
    obtain ⟨m, hm, rfl⟩ := List.mem_map.1 hv
    exact legible_member (hd m hm)
  cases documentation <;> cases parentType <;>
    exact .obj (by simp [textFields]) (by simp [textFields, Legible.str, htags])

theorem legibleValue_member {owner : String} {p : Property} {m : Member} (hp : p.LegibleDefaults)
    (hm : member? owner p = some m) : m.kind.LegibleValue := by
  obtain ⟨kind, hkind, rfl⟩ := Option.map_eq_some_iff.1 hm
  unfold kind? at hkind
  split at hkind
  · cases hkind
    trivial
  · split at hkind
    · cases hkind
      trivial
    · split at hkind
      · cases hkind
        exact Legible.null
      · obtain ⟨dataType, -, rfl⟩ := Option.map_eq_some_iff.1 hkind
        cases hp with
        | intro hdefault _ => exact hdefault

theorem legibleValues_build {s : Schema} (hs : s.LegibleDefaults) : (build s).LegibleValues := by
  intro m hm
  obtain ⟨p, hp, hm⟩ := List.mem_filterMap.1 hm
  exact legibleValue_member (hs p hp) hm

theorem legibleValues_nestedOfAll {owner : String} {ps : List Property}
    (hps : ∀ p ∈ ps, ∀ owner, ∀ d ∈ nestedOf owner p, d.LegibleValues) : ∀ d ∈ nestedOfAll owner ps, d.LegibleValues := by
  induction ps with
  | nil => simp [nestedOfAll]
  | cons p rest ih =>
    intro d hd
    rw [nestedOfAll, List.mem_append] at hd
    exact hd.elim (hps p (by simp) owner d) (ih (fun q hq => hps q (by simp [hq])) d)

theorem legibleValues_nestedOf {p : Property} (hp : p.LegibleDefaults) :
    ∀ owner, ∀ d ∈ nestedOf owner p, d.LegibleValues := by
  induction hp with
  | @intro p _ hnested ih =>
    intro owner d hd
    obtain ⟨name, type, format, description, default, refType, nested, items, enum⟩ := p
    rw [nestedOf] at hd
    split at hd
    · rcases List.mem_cons.1 hd with rfl | hd
      · exact legibleValues_build hnested
      · exact legibleValues_nestedOfAll ih d hd
    · simp at hd

theorem legibleValues_nestedDefinitions {s : Schema} (hs : s.LegibleDefaults) :
    ∀ d ∈ nestedDefinitions s, d.LegibleValues :=
  legibleValues_nestedOfAll fun p hp => legibleValues_nestedOf (hs p hp)

theorem legible_build {s : Schema} (hs : s.LegibleDefaults) : Legible 4 (build s).toJson :=
  (legibleValues_build hs).legible

theorem legible_list {ds : List Definition} (hds : ∀ d ∈ ds, d.LegibleValues) : Legible 5 (.arr (ds.map Definition.toJson)) := by
  refine .arr fun v hv => ?_
  obtain ⟨d, hd, rfl⟩ := List.mem_map.1 hv
  exact (hds d hd).legible

theorem legible_nestedJson {s : Schema} (hs : s.LegibleDefaults) :
    Legible 5 (.arr ((nestedDefinitions s).map Definition.toJson)) :=
  legible_list (legibleValues_nestedDefinitions hs)

/-! ### Written definitions are distinct -/

theorem valueFields_injective : Function.Injective valueFields := by
  intro v w h
  cases v <;> cases w <;> simp only [valueFields, List.cons.injEq, Prod.mk.injEq, reduceCtorEq, and_true, true_and] at h ⊢ <;>
    exact h

theorem word_injective : Function.Injective DataType.word := by
  intro a b h
  cases a <;> cases b <;> first | rfl | exact absurd h (by decide)

theorem Kind.fields_injective : Function.Injective Kind.fields := by
  intro a b h
  cases a with
  | instanceOf typeId =>
    cases b with
    | instanceOf typeId' =>
      simp only [fields, List.cons.injEq, Prod.mk.injEq, Json.str.injEq, true_and, and_true] at h
      rw [h]
    | atomic dataType value => simp [fields, TagType.word] at h
  | atomic dataType value =>
    cases b with
    | instanceOf typeId => simp [fields, TagType.word] at h
    | atomic dataType' value' =>
      simp only [fields, List.cons_append, List.nil_append, List.cons.injEq, Prod.mk.injEq, Json.str.injEq, true_and] at h
      rw [word_injective h.1, valueFields_injective (List.append_cancel_right h.2)]

theorem Member.toJson_injective : Function.Injective Member.toJson := by
  intro m n h
  obtain ⟨name, tooltip, kind⟩ := m
  obtain ⟨name', tooltip', kind'⟩ := n
  have hname : (some (Json.str name)) = some (Json.str name') := congrArg (Json.field? "name") h
  cases hname
  -- the tooltip, if there is one, stands before the fields of the kind, which begin otherwise
  have hfirst : ∀ k : Kind, ∃ v rest, k.fields = ("tagType", v) :: rest := by
    intro k
    cases k <;> exact ⟨_, _, rfl⟩
  obtain ⟨v, rest, hv⟩ := hfirst kind
  obtain ⟨v', rest', hv'⟩ := hfirst kind'
  have hfields : textFields "tooltip" tooltip ++ kind.fields = textFields "tooltip" tooltip' ++ kind'.fields :=
    (List.cons.inj (Json.obj.inj h)).2
  cases tooltip with
  | none =>
    cases tooltip' with
    | none => rw [Kind.fields_injective hfields]
    | some text =>
      rw [hv] at hfields
      simp [textFields] at hfields
  | some text =>
    cases tooltip' with
    | none =>
      rw [hv'] at hfields
      simp [textFields] at hfields
    | some text' =>
      simp only [textFields, List.cons_append, List.nil_append, List.cons.injEq, Prod.mk.injEq, Json.str.injEq, true_and] at hfields
      rw [hfields.1, Kind.fields_injective hfields.2]

theorem Definition.toJson_injective : Function.Injective Definition.toJson := by
  intro d e h
  obtain ⟨name, documentation, parentType, members⟩ := d
  obtain ⟨name', documentation', parentType', members'⟩ := e
  have hfields := Json.obj.inj h
  cases documentation <;> cases documentation' <;> cases parentType <;> cases parentType' <;>
    simp_all [textFields, List.map_inj_right, Member.toJson_injective.eq_iff]

/-! ### Names of definitions -/

/-- The fields that are read for those of an object have their names, in the same order. -/
theorem forall₂_rereadFields {depth : ℕ} {fields read : List (String × Json)}
    (hread : Json.rereadFields depth fields = .ok read) :
    List.Forall₂ (fun f g => f.1 = g.1 ∧ Json.reread depth f.2 = .ok g.2) fields read := by
  induction fields generalizing read with
  | nil =>
    cases hread
    exact .nil
  | cons f rest ih =>
    obtain ⟨name, v⟩ := f
    rw [Json.rereadFields] at hread
    obtain ⟨w, hw, hread⟩ := bind_eq_ok hread
    obtain ⟨more, hmore, hread⟩ := bind_eq_ok hread
    cases hread
    exact .cons ⟨rfl, hw⟩ (ih hmore)

theorem map_fst_rereadFields {depth : ℕ} {fields read : List (String × Json)}
    (hread : Json.rereadFields depth fields = .ok read) : read.map Prod.fst = fields.map Prod.fst := by
  have hall := forall₂_rereadFields hread
  clear hread
  induction hall with
  | nil => rfl
  | cons hfield _ ih => rw [List.map_cons, List.map_cons, hfield.1, ih]

/-- The fields of a written definition. -/
def Definition.fields (d : Definition) : List (String × Json) :=
  [("name", .str d.name), ("tagType", .str TagType.udtType.word)] ++ textFields "documentation" d.documentation ++
    textFields "typeId" d.parentType ++ [("tags", .arr (d.members.map Member.toJson))]

theorem Definition.toJson_eq (d : Definition) : d.toJson = .obj d.fields := rfl

theorem Definition.nodup_fields (d : Definition) : (d.fields.map Prod.fst).Nodup := by
  obtain ⟨name, documentation, parentType, members⟩ := d
  cases documentation <;> cases parentType <;> simp [fields, textFields]

/-- A definition whose text can be read is imported under its own name, unless that is empty. -/
theorem importName_of_reread {d : Definition} {depth : ℕ} {v : Json} (hv : Json.reread depth d.toJson = .ok v) :
    Tags.importName? v = if d.name = "" then none else some d.name := by
  cases depth with
  | zero => cases hv
  | succ depth =>
    rw [d.toJson_eq, Json.reread] at hv
    cases hread : Json.rereadFields depth d.fields with
    | error stop =>
      rw [hread] at hv
      cases hv
    | ok read =>
      rw [hread] at hv
      cases hv
      rw [Json.ofFields_of_nodup (by rw [map_fst_rereadFields hread]; exact d.nodup_fields)]
      have hall := forall₂_rereadFields hread
      simp only [Definition.fields, List.cons_append, List.nil_append] at hall
      obtain ⟨⟨first, name⟩, after, ⟨hfirst, hname⟩, hafter, rfl⟩ := List.forall₂_cons_left_iff.1 hall
      obtain ⟨⟨second, type⟩, more, ⟨hsecond, htype⟩, -, rfl⟩ := List.forall₂_cons_left_iff.1 hafter
      cases hfirst
      cases hname
      cases hsecond
      cases htype
      by_cases hempty : d.name = "" <;>
        simp [Tags.importName?, Json.field?, Dict.lookup, Json.isFilled, Json.display, TagType.word, hempty]

end TagTypes.Udt
