import Mathlib
import TagTypes.Broker.Address
import TagTypes.Proofs.Except
import TagTypes.Proofs.Text.Digit
import TagTypes.Proofs.Text.Split

/-!
# Addresses that are read and written

An address that is read names a host and a port that a connection can be made to, and its scheme decides whether that is encrypted. To leave out the scheme is to write `tcp`. An address that is put together from a scheme, a host and perhaps a port is read as just these parts, and without a port as the one that is usual for the scheme.
-/

namespace TagTypes

/-! ### Lower case -/

namespace Text

theorem lower_ne_empty {cs : List Char} (hcs : cs ≠ []) : lower (String.ofList cs) ≠ "" := by
  obtain ⟨c, rest, rfl⟩ := List.exists_cons_of_ne_nil hcs
  rw [lower, String.toList_ofList, lowerFrom]
  intro hempty
  have hnil := congrArg String.toList hempty
  rw [String.toList_ofList] at hnil
  split_ifs at hnil <;> cases hnil

/-- A text of characters that have no capital form is in lower case, whatever stands in front of it. -/
theorem lowerFrom_eq_self {cs : List Char} (hcs : ∀ c ∈ cs, lowerChar c = c ∧ c.toNat ≠ 0x130) (before : List Char) :
    lowerFrom before cs = cs := by
  have hsigma : lowerChar 'Σ' ≠ 'Σ' := by decide +kernel
  induction cs generalizing before with
  | nil => rfl
  | cons c rest ih =>
    obtain ⟨⟨hsame, hdotted⟩, hrest⟩ := List.forall_mem_cons.1 hcs
    have hplain : ¬(c = 'Σ' && startsCased before && !startsCased rest) = true := by
      intro hend
      simp only [Bool.and_eq_true, decide_eq_true_eq] at hend
      exact hsigma (hend.1.1 ▸ hsame)
    rw [lowerFrom, if_neg hdotted, if_neg hplain, hsame, ih hrest, List.singleton_append]

end Text

namespace Broker

open Text (asciiLower)

/-- The schemes of connections that are not encrypted. -/
def plainSchemes : List String := ["tcp", "mqtt"]

/-- The schemes of encrypted connections. -/
def encryptedSchemes : List String := ["ssl", "tls", "mqtts"]

/-- A connection can be made to the address, and it is encrypted if the scheme, in lower case, is one of encrypted connections and not otherwise. -/
structure Address.Suits (a : Address) (scheme : String) : Prop where
  host_ne_empty : a.host ≠ ""
  one_le_port : 1 ≤ a.port
  port_le : a.port ≤ 65535
  supported : scheme ∈ plainSchemes ++ encryptedSchemes
  useTls_iff : a.useTls = true ↔ scheme ∈ encryptedSchemes

namespace Address

/-! ### Schemes -/

section Schemes

variable {cs rest : List Char} {scheme : String} {useTls : Bool}

theorem usesTls?_eq_some_iff :
    usesTls? scheme = some useTls ↔ scheme ∈ plainSchemes ++ encryptedSchemes ∧ useTls = decide (scheme ∈ encryptedSchemes) := by
  have hlists : usesTls? scheme =
      if scheme ∈ plainSchemes then some false else if scheme ∈ encryptedSchemes then some true else none := by
    simp [usesTls?, plainSchemes, encryptedSchemes, or_assoc]
  have hapart : ∀ word ∈ plainSchemes, word ∉ encryptedSchemes := by decide
  rw [hlists, List.mem_append]
  by_cases hplain : scheme ∈ plainSchemes
  · simp [hplain, hapart scheme hplain, eq_comm]
  · by_cases hencrypted : scheme ∈ encryptedSchemes
    · simp [hplain, hencrypted, eq_comm]
    · simp [hplain, hencrypted]

/-- A scheme that is known is what stands in front of the first colon. -/
theorem exists_of_splitScheme (hsplit : splitScheme cs = (scheme, rest)) (hscheme : scheme ≠ "") :
    ∃ written, cs = written ++ ':' :: rest ∧ ':' ∉ written ∧ scheme = asciiLower (String.ofList written) := by
  unfold splitScheme at hsplit
  split at hsplit
  · rename_i c more after hfirst
    split at hsplit
    · obtain ⟨rfl, rfl⟩ := Prod.mk.inj hsplit
      obtain ⟨hcs, hmark⟩ := Text.eq_append_of_splitFirst hfirst
      exact ⟨c :: more, hcs, hmark, rfl⟩
    · exact absurd (Prod.mk.inj hsplit).1.symm hscheme
  · exact absurd (Prod.mk.inj hsplit).1.symm hscheme

/-- A supported scheme is written with letters only. -/
theorem isAlpha_of_supported {written : String} (hscheme : asciiLower written ∈ plainSchemes ++ encryptedSchemes) :
    written.toList ≠ [] ∧ ∀ c ∈ written.toList, c.isAlpha = true := by
  have hwords : ∀ word ∈ plainSchemes ++ encryptedSchemes, word.toList ≠ [] ∧ word.toList.all Char.isAlpha = true := by decide
  have hlower : (asciiLower written).toList = written.toList.map Char.toLower := String.toList_ofList
  obtain ⟨hne, hletters⟩ := hwords _ hscheme
  rw [hlower] at hne hletters
  rw [List.all_eq_true] at hletters
  refine ⟨fun hnil => hne (by rw [hnil, List.map_nil]), fun c hc => ?_⟩
  rw [← Char.isAlpha_toLower_eq_isAlpha]
  exact hletters _ (List.mem_map_of_mem hc)

end Schemes

/-! ### Hosts and ports -/

theorem hostText_ne_empty {host : List Char} (hhost : host ≠ []) : hostText host ≠ "" := by
  unfold hostText
  by_cases hzone : '%' ∈ host
  · obtain ⟨name, zone, rfl, hname⟩ := List.eq_append_cons_of_mem hzone
    rw [Text.splitFirst_append_mark hname]
    simp
  · rw [Text.splitFirst_of_not_mem hzone]
    exact Text.lower_ne_empty hhost

theorem readPort_bounds {text : List Char} {port : Option ℕ} (hport : readPort text = .ok port) :
    ∀ n ∈ port, 1 ≤ n ∧ n ≤ 65535 := by
  unfold readPort at hport
  split at hport
  · cases hport
    nofun
  · split at hport
    · cases hport
    · split at hport
      · cases hport
      · simp only at hport
        split at hport
        · cases hport
        · cases hport
          split
          · nofun
          · intro n hn
            cases hn
            omega

theorem readPort_natDigits {n : ℕ} (hpos : 1 ≤ n) (hle : n ≤ 65535) : readPort (Text.natDigits n) = .ok (some n) := by
  have hvalue : Text.ofDigits 10 ((Text.natDigits n).map fun c => c.toNat - 48) = n := Text.decimalValue_natDigits n
  have hlength : (Text.natDigits n).length ≤ 5 := (Text.length_natDigits_le_iff (by decide)).2 (by omega)
  have hshort : ¬Text.maxDigits < (Text.natDigits n).length := by
    have : Text.maxDigits = 4300 := rfl
    omega
  have hdigits : (Text.natDigits n).all Char.isDigit = true :=
    List.all_eq_true.2 fun c hc => Text.isDigit_of_mem_natDigits hc
  unfold readPort
  simp only [List.isEmpty_iff, Text.natDigits_ne_nil, hdigits, hvalue, hshort, show ¬65535 < n by omega, show n ≠ 0 by omega,
    Bool.not_true, Bool.false_eq_true, if_false]

/-! ### What is read -/

variable {url : String} {a : Address}

theorem parse_eq_ok_iff_of_splitScheme {scheme : String} {rest : List Char}
    (hsplit : splitScheme (significant (withScheme url)) = (scheme, rest)) :
    parse url = .ok a ↔ checkBrackets (authority rest) = .ok () ∧
      (authority rest).any (fun c => deceptive.contains c.toNat) = false ∧ usesTls? scheme = some a.useTls ∧
      (hostAndPort (authority rest)).1 ≠ [] ∧ a.host = hostText (hostAndPort (authority rest)).1 ∧
      ∃ port, readPort (hostAndPort (authority rest)).2 = .ok port ∧ a.port = port.getD (defaultPort a.useTls) := by
  unfold parse
  simp only [hsplit]
  cases hbrackets : checkBrackets (authority rest) with
  | error e => exact iff_of_false nofun fun h => nomatch h.1
  | ok _ =>
    cases hdeceptive : (authority rest).any fun c => deceptive.contains c.toNat with
    | true => exact iff_of_false nofun fun h => nomatch h.2.1
    | false =>
      cases htls : usesTls? scheme with
      | none => exact iff_of_false nofun fun h => nomatch h.2.2.1
      | some useTls =>
        by_cases hempty : (hostAndPort (authority rest)).1 = []
        · rw [hempty]
          exact iff_of_false nofun fun h => h.2.2.2.1 rfl
        · have hfull : (hostAndPort (authority rest)).1.isEmpty = false := List.isEmpty_eq_false_iff.2 hempty
          simp only [hfull]
          change (readPort (hostAndPort (authority rest)).2 >>= fun port =>
            .ok (⟨hostText (hostAndPort (authority rest)).1, port.getD (defaultPort useTls), useTls⟩ : Address)) = .ok a ↔ _
          obtain ⟨host, port, tls⟩ := a
          simp only [bind_eq_ok_iff, Except.ok.injEq, mk.injEq, Option.some.injEq, true_and]
          constructor
          · rintro ⟨found, hfound, rfl, rfl, rfl⟩
            exact ⟨rfl, hempty, rfl, found, hfound, rfl⟩
          · rintro ⟨rfl, -, rfl, found, hfound, rfl⟩
            exact ⟨found, hfound, rfl, rfl, rfl⟩

theorem exists_of_authority_ne_nil {rest : List Char} (hrest : authority rest ≠ []) : ∃ more, rest = '/' :: '/' :: more := by
  unfold authority at hrest
  split at hrest
  · rename_i more
    exact ⟨more, rfl⟩
  · exact absurd rfl hrest

theorem defaultPort_bounds (useTls : Bool) : 1 ≤ defaultPort useTls ∧ defaultPort useTls ≤ 65535 := by
  cases useTls <;> decide

/-- What is read begins with a scheme, and the address suits it. -/
theorem suits_of_parse (hparse : parse url = .ok a) :
    ∃ written more, significant (withScheme url) = written ++ "://".toList ++ more ∧ ':' ∉ written ∧
      a.Suits (asciiLower (String.ofList written)) := by
  cases hsplit : splitScheme (significant (withScheme url)) with
  | mk scheme rest =>
    obtain ⟨-, -, htls, hhost, hname, port, hport, hnumber⟩ := (parse_eq_ok_iff_of_splitScheme hsplit).1 hparse
    obtain ⟨hsupported, huseTls⟩ := usesTls?_eq_some_iff.1 htls
    have hwords : ∀ word ∈ plainSchemes ++ encryptedSchemes, word ≠ "" := by decide
    obtain ⟨written, hwritten, hcolon, rfl⟩ := exists_of_splitScheme hsplit (hwords _ hsupported)
    have hauthority : authority rest ≠ [] := fun hnil => hhost (by rw [hnil]; rfl)
    obtain ⟨more, rfl⟩ := exists_of_authority_ne_nil hauthority
    have hbounds : 1 ≤ a.port ∧ a.port ≤ 65535 := by
      rw [hnumber]
      cases port with
      | none => exact defaultPort_bounds a.useTls
      | some n => exact readPort_bounds hport n rfl
    refine ⟨written, more, by rw [hwritten]; simp, hcolon, ?_⟩
    exact ⟨hname ▸ hostText_ne_empty hhost, hbounds.1, hbounds.2, hsupported, by rw [huseTls, decide_eq_true_iff]⟩

theorem containsMark_iff {cs : List Char} : containsMark cs = true ↔ "://".toList <:+: cs := by
  induction cs with
  | nil => simp [containsMark]
  | cons c cs ih => rw [containsMark, Bool.or_eq_true, List.isPrefixOf_iff_prefix, ih, List.infix_cons_iff]

/-- A scheme that is left out is `tcp`. -/
theorem parse_tcp (hurl : ¬"://".toList <:+: url.toList) : parse ("tcp://" ++ url) = parse url := by
  have hleft : withScheme url = "tcp://" ++ url := if_neg fun hmark => hurl (containsMark_iff.1 hmark)
  have hmark : containsMark ("tcp://" ++ url).toList = true := by
    rw [containsMark_iff, String.toList_append]
    exact ⟨"tcp".toList, url.toList, rfl⟩
  unfold parse
  rw [hleft, withScheme, if_pos hmark]

/-! ### What is written -/

/-- The address put together from a scheme, a host and perhaps a port. -/
def written (scheme host : String) (port : Option ℕ) : String :=
  scheme ++ "://" ++ host ++ port.elim "" fun n => ":" ++ Text.natText n

/-- A character that can stand in a host and has no capital form: it is visible and divides nothing, nor does its compatibility form. -/
structure IsHostChar (c : Char) : Prop where
  visible : 0x20 < c.toNat
  divides_nothing : c ∉ "/?#@:[]%".toList
  not_deceptive : c.toNat ∉ deceptive
  lowerChar_eq : Text.lowerChar c = c
  not_dotted : c.toNat ≠ 0x130

instance (c : Char) : Decidable (IsHostChar c) :=
  decidable_of_iff (0x20 < c.toNat ∧ c ∉ "/?#@:[]%".toList ∧ c.toNat ∉ deceptive ∧ Text.lowerChar c = c ∧ c.toNat ≠ 0x130)
    ⟨fun ⟨hvisible, hdivides, hdeceptive, hlower, hdotted⟩ => ⟨hvisible, hdivides, hdeceptive, hlower, hdotted⟩,
      fun h => ⟨h.visible, h.divides_nothing, h.not_deceptive, h.lowerChar_eq, h.not_dotted⟩⟩

theorem isHostChar_of_plain {c : Char} (hc : c.isLower = true ∨ c.isDigit = true ∨ c = '.' ∨ c = '-') : IsHostChar c := by
  have hcodes : ∀ n < 128, (Char.ofNat n).isLower = true ∨ (Char.ofNat n).isDigit = true ∨ Char.ofNat n = '.' ∨ Char.ofNat n = '-' →
      IsHostChar (Char.ofNat n) := by decide +kernel
  have hascii : c.toNat < 128 := by
    rcases hc with hlower | hdigit | rfl | rfl
    · simp only [Char.isLower, Bool.and_eq_true, decide_eq_true_eq] at hlower
      have : c.toNat ≤ 122 := UInt32.le_iff_toNat_le.1 hlower.2
      omega
    · simp only [Char.isDigit, Bool.and_eq_true, decide_eq_true_eq] at hdigit
      have : c.toNat ≤ 57 := UInt32.le_iff_toNat_le.1 hdigit.2
      omega
    · decide
    · decide
  have hchar := hcodes c.toNat hascii
  rw [Char.ofNat_toNat] at hchar
  exact hchar hc

section Written

variable {scheme host : String} {port : Option ℕ}

/-- What stands behind `//` in an address that is written. -/
def site (host : String) (port : Option ℕ) : List Char := host.toList ++ port.elim [] fun n => ':' :: Text.natDigits n

theorem toList_written (scheme host : String) (port : Option ℕ) :
    (written scheme host port).toList = scheme.toList ++ ':' :: '/' :: '/' :: site host port := by
  cases port <;> simp [written, site, Text.natText]

theorem isHostChar_of_mem_natDigits {n : ℕ} {c : Char} (hc : c ∈ Text.natDigits n) : IsHostChar c :=
  isHostChar_of_plain (.inr (.inl (Text.isDigit_of_mem_natDigits hc)))

theorem isHostChar_or_eq_of_mem_site (hhost : ∀ c ∈ host.toList, IsHostChar c) {c : Char} (hc : c ∈ site host port) :
    IsHostChar c ∨ c = ':' := by
  rcases List.mem_append.1 hc with hc | hc
  · exact .inl (hhost c hc)
  · cases port with
    | none => cases hc
    | some n =>
      rcases List.mem_cons.1 hc with rfl | hc
      · exact .inr rfl
      · exact .inl (isHostChar_of_mem_natDigits hc)

theorem not_mem_of_divides {mark : Char} (hmark : mark ∈ "/?#@[]".toList) (hhost : ∀ c ∈ host.toList, IsHostChar c) :
    mark ∉ site host port := by
  intro hmem
  rcases isHostChar_or_eq_of_mem_site hhost hmem with hchar | rfl
  · exact hchar.divides_nothing (List.Sublist.subset (by decide) hmark)
  · exact absurd hmark (by decide)

theorem significant_of_visible (hurl : ∀ c ∈ url.toList, 0x20 < c.toNat) : significant url = url.toList := by
  have hdrop : url.toList.dropWhile (fun c => decide (c.toNat ≤ 0x20)) = url.toList := by
    rw [List.dropWhile_eq_self_iff]
    intro hpos
    simpa using hurl _ (List.getElem_mem hpos)
  rw [significant, hdrop, List.filter_eq_self]
  intro c hc
  have hvisible := hurl c hc
  have hblank : c ≠ '\t' ∧ c ≠ '\r' ∧ c ≠ '\n' := by
    refine ⟨?_, ?_, ?_⟩ <;> rintro rfl <;> exact absurd hvisible (by decide)
  simp [hblank]

theorem lt_toNat_of_isAlpha {c : Char} (hc : c.isAlpha = true) : 0x40 < c.toNat := by
  simp only [Char.isAlpha, Char.isUpper, Char.isLower, Bool.or_eq_true, Bool.and_eq_true, decide_eq_true_eq] at hc
  rcases hc with hc | hc
  · have : 65 ≤ c.toNat := UInt32.le_iff_toNat_le.1 hc.1
    omega
  · have : 97 ≤ c.toNat := UInt32.le_iff_toNat_le.1 hc.1
    omega

theorem significant_written (hscheme : asciiLower scheme ∈ plainSchemes ++ encryptedSchemes)
    (hhost : ∀ c ∈ host.toList, IsHostChar c) :
    significant (withScheme (written scheme host port)) = scheme.toList ++ ':' :: '/' :: '/' :: site host port := by
  have hmark : containsMark (written scheme host port).toList = true := by
    rw [containsMark_iff, toList_written]
    exact ⟨scheme.toList, site host port, by simp⟩
  have hvisible : ∀ c ∈ (written scheme host port).toList, 0x20 < c.toNat := by
    intro c hc
    rw [toList_written] at hc
    simp only [List.mem_append, List.mem_cons] at hc
    rcases hc with hletter | rfl | rfl | rfl | hsite
    · have := lt_toNat_of_isAlpha ((isAlpha_of_supported hscheme).2 c hletter)
      omega
    · decide
    · decide
    · decide
    · rcases isHostChar_or_eq_of_mem_site hhost hsite with hchar | rfl
      · exact hchar.visible
      · decide
  rw [withScheme, if_pos hmark, significant_of_visible hvisible, toList_written]

theorem splitScheme_of_supported (hscheme : asciiLower scheme ∈ plainSchemes ++ encryptedSchemes) (rest : List Char) :
    splitScheme (scheme.toList ++ ':' :: rest) = (asciiLower scheme, rest) := by
  obtain ⟨hne, hletters⟩ := isAlpha_of_supported hscheme
  have hcolon : ':' ∉ scheme.toList := fun hmem => absurd (hletters ':' hmem) (by decide)
  obtain ⟨c, more, hcs⟩ := List.exists_cons_of_ne_nil hne
  rw [hcs] at hcolon hletters
  have hsplit : Text.splitFirst ':' (c :: more ++ ':' :: rest) = (c :: more, some rest) := Text.splitFirst_append_mark hcolon rest
  have hfirst : c.isAlpha = true := hletters c List.mem_cons_self
  have hmore : more.all isSchemeChar = true := by
    rw [List.all_eq_true]
    intro d hd
    simp [isSchemeChar, Char.isAlphanum, hletters d (List.mem_cons_of_mem _ hd)]
  rw [hcs, splitScheme, hsplit]
  simp only [hfirst, hmore, Bool.and_self, if_true, ← hcs, String.ofList_toList]

theorem authority_site (hhost : ∀ c ∈ host.toList, IsHostChar c) :
    authority ('/' :: '/' :: site host port) = site host port := by
  rw [authority, List.takeWhile_eq_self_iff]
  intro c hc
  have hne : ∀ mark ∈ "/?#".toList, c ≠ mark := by
    rintro mark hmark rfl
    exact not_mem_of_divides (List.Sublist.subset (by decide) hmark) hhost hc
  simp [hne]

theorem checkBrackets_site (hhost : ∀ c ∈ host.toList, IsHostChar c) : checkBrackets (site host port) = .ok () := by
  have hopen : '[' ∉ site host port := not_mem_of_divides (by decide) hhost
  have hclose : ']' ∉ site host port := not_mem_of_divides (by decide) hhost
  rw [checkBrackets, if_neg (by simp [hopen, hclose]), if_neg (by simp [hopen])]

theorem hostAndPort_site (hhost : ∀ c ∈ host.toList, IsHostChar c) :
    hostAndPort (site host port) = (host.toList, port.elim [] Text.natDigits) := by
  have hcolon : ':' ∉ host.toList := fun hmem => (hhost ':' hmem).divides_nothing (by decide)
  have hlogin : Text.afterLast '@' (site host port) = site host port :=
    Text.afterLast_of_not_mem (not_mem_of_divides (by decide) hhost)
  have hbracket : Text.splitFirst '[' (site host port) = (site host port, none) :=
    Text.splitFirst_of_not_mem (not_mem_of_divides (by decide) hhost)
  have hport : Text.splitFirst ':' (site host port) = (host.toList, port.map Text.natDigits) := by
    cases port with
    | none =>
      rw [site, Option.elim_none, List.append_nil, Text.splitFirst_of_not_mem hcolon]
      rfl
    | some n => exact Text.splitFirst_append_mark hcolon _
  unfold hostAndPort
  simp only [hlogin, hbracket, hport]
  cases port <;> rfl

theorem hostText_of_hostChars (hhost : ∀ c ∈ host.toList, IsHostChar c) : hostText host.toList = host := by
  have hzone : '%' ∉ host.toList := fun hmem => (hhost '%' hmem).divides_nothing (by decide)
  unfold hostText
  rw [Text.splitFirst_of_not_mem hzone]
  simp only [String.ofList_toList]
  rw [Text.lower, Text.lowerFrom_eq_self fun c hc => ⟨(hhost c hc).lowerChar_eq, (hhost c hc).not_dotted⟩, String.ofList_toList]

/-- An address that is written is read as what it was written from. -/
theorem parse_written (hscheme : asciiLower scheme ∈ plainSchemes ++ encryptedSchemes) (hempty : host ≠ "")
    (hhost : ∀ c ∈ host.toList, IsHostChar c) (hport : ∀ n ∈ port, 1 ≤ n ∧ n ≤ 65535) {useTls : Bool}
    (huseTls : useTls = decide (asciiLower scheme ∈ encryptedSchemes)) :
    parse (written scheme host port) = .ok ⟨host, port.getD (defaultPort useTls), useTls⟩ := by
  have hsplit : splitScheme (significant (withScheme (written scheme host port))) =
      (asciiLower scheme, '/' :: '/' :: site host port) := by
    rw [significant_written hscheme hhost, splitScheme_of_supported hscheme]
  have hdeceptive : (site host port).any (fun c => deceptive.contains c.toNat) = false := by
    rw [List.any_eq_false]
    intro c hc
    rw [List.contains_iff_mem]
    rcases isHostChar_or_eq_of_mem_site hhost hc with hchar | rfl
    · exact hchar.not_deceptive
    · decide
  have hread : readPort (port.elim [] Text.natDigits) = .ok port := by
    cases port with
    | none => rfl
    | some n => exact readPort_natDigits (hport n rfl).1 (hport n rfl).2
  rw [parse_eq_ok_iff_of_splitScheme hsplit, authority_site hhost, hostAndPort_site hhost]
  exact ⟨checkBrackets_site hhost, hdeceptive, usesTls?_eq_some_iff.2 ⟨hscheme, huseTls⟩, by simpa using hempty,
    (hostText_of_hostChars hhost).symm, port, hread, rfl⟩

end Written

/-- Reading an address fails or gives one to which a connection can be made, encrypted or not as the scheme in front of the first `://` says in any letter case; a scheme that is left out is `tcp`; and what is put together from a supported scheme, a host and perhaps a port is read as these, without a port as 8883 or 1883. Hosts of lower-case letters, digits, points and hyphens are among those that can be written. -/
theorem parse_suits_and_reads_written :
    (∀ url a, parse url = .ok a →
      ∃ scheme more, significant (withScheme url) = scheme ++ "://".toList ++ more ∧ ':' ∉ scheme ∧
        a.Suits (asciiLower (String.ofList scheme))) ∧
    (∀ url : String, ¬"://".toList <:+: url.toList → parse ("tcp://" ++ url) = parse url) ∧
    (∀ scheme host port, asciiLower scheme ∈ plainSchemes ++ encryptedSchemes → host ≠ "" →
      (∀ c ∈ host.toList, IsHostChar c) → (∀ n ∈ port, 1 ≤ n ∧ n ≤ 65535) →
      parse (written scheme host port) = .ok {
        host
        port := port.getD (if asciiLower scheme ∈ encryptedSchemes then 8883 else 1883)
        useTls := decide (asciiLower scheme ∈ encryptedSchemes) }) ∧
    ∀ c : Char, c.isLower = true ∨ c.isDigit = true ∨ c = '.' ∨ c = '-' → IsHostChar c := by
  refine ⟨fun url a => suits_of_parse, fun url => parse_tcp, ?_, fun c => isHostChar_of_plain⟩
  intro scheme host port hscheme hempty hhost hport
  rw [parse_written hscheme hempty hhost hport rfl, defaultPort]
  simp only [decide_eq_true_eq]

theorem parse_suits_and_reads_written_at_brokers :
    (parse "TLS://[::1%Lan]:99" = .ok ⟨"::1%Lan", 99, true⟩ ∧
      ∃ scheme more, significant (withScheme "TLS://[::1%Lan]:99") = scheme ++ "://".toList ++ more ∧ ':' ∉ scheme ∧
        (⟨"::1%Lan", 99, true⟩ : Address).Suits (asciiLower (String.ofList scheme))) ∧
    parse "tcp://broker:0" = parse "broker:0" ∧
    (written "mQTTs" "my-broker.example" (some 8080) = "mQTTs://my-broker.example:8080" ∧
      parse "mQTTs://my-broker.example:8080" = .ok ⟨"my-broker.example", 8080, true⟩) ∧
    IsHostChar '-' := by
  obtain ⟨hsuits, htcp, hwritten, hchar⟩ := parse_suits_and_reads_written
  have hparse : parse "TLS://[::1%Lan]:99" = .ok ⟨"::1%Lan", 99, true⟩ := by decide +kernel
  have htext : written "mQTTs" "my-broker.example" (some 8080) = "mQTTs://my-broker.example:8080" := by decide +kernel
  have hplain : "my-broker.example".toList.all (fun c => c.isLower || c.isDigit || c = '.' || c = '-') = true := by decide
  have hhost : ∀ c ∈ "my-broker.example".toList, IsHostChar c :=
    fun c hc => hchar c (by simpa [or_assoc] using List.all_eq_true.1 hplain c hc)
  have hread := hwritten "mQTTs" "my-broker.example" (some 8080) (by decide +kernel) (by decide) hhost (by decide)
  have htls : asciiLower "mQTTs" ∈ encryptedSchemes := by decide +kernel
  rw [htext, decide_eq_true htls] at hread
  exact ⟨⟨hparse, hsuits _ _ hparse⟩, htcp "broker:0" (by decide +kernel), ⟨htext, hread⟩, hchar '-' (by decide)⟩

end Address

end Broker

end TagTypes
