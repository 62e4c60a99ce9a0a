import LibPolyCall.Config.Values
import LibPolyCall.Library.Spans

/-!
# Port mappings as they are parsed

`parse_positive_integer` refuses a minus sign in front and leaves the rest to `strtoul`, which skips
white space, takes a sign, and negates modulo `2^64`. So the parser takes more than digits
(`PositiveNumber`), and `parse_port_mapping` takes more than two ports with a colon between them:
`parsePortMapping_eq_some_iff_text` says what it takes, and `parsedExactly_iff` which texts are the
difference.
-/

namespace LibPolyCall.Config

open Scan

/-! ## Numbers -/

/-- A number as `parse_positive_integer` takes it, behind white space: a minus sign does not come
first, the digits fit 64 bits, and the value is not zero. -/
structure PositiveNumber (spaces : Text) (n : Numeral) : Prop where
  blank : Blank spaces
  minus : n.sign = .minus → spaces ≠ []
  magnitude_lt : n.magnitude < 2 ^ 64
  value_pos : 0 < n.value

/-- A number at the end of a text is read up to this end. -/
theorem strtoul_text {spaces : Text} (hspaces : Blank spaces) (n : Numeral) :
    strtoul (spaces ++ n.text) = ⟨n.value, decide (2 ^ 64 ≤ n.magnitude), []⟩ := by
  have hread := @strtoul_append spaces [] hspaces n fun _ hb => nomatch hb
  rwa [List.append_nil] at hread

/-- A minus sign comes first in a text that is white space and a number exactly when there is no
white space and the sign is minus. -/
theorem head?_eq_minus_iff {spaces : Text} (hspaces : Blank spaces) (n : Numeral) :
    (spaces ++ n.text).head? = some 45 ↔ spaces = [] ∧ n.sign = .minus := by
  cases spaces with
  | nil =>
    rw [List.nil_append, ← n.text.append_nil, n.head?_eq_minus_iff]
    exact (and_iff_right rfl).symm
  | cons b spaces =>
    refine iff_of_false (fun hb => ?_) (fun h => List.cons_ne_nil _ _ h.1)
    rw [List.cons_append, List.head?_cons, Option.some_inj] at hb
    have hspace := hspaces b List.mem_cons_self
    rw [hb] at hspace
    exact absurd hspace (by decide)

/-- What `parse_positive_integer` takes. -/
theorem parsePositiveInteger_eq_some_iff_text {value : Text} {k : ℕ} :
    parsePositiveInteger value = some k ↔
      ∃ spaces, ∃ n : Numeral, PositiveNumber spaces n ∧ value = spaces ++ n.text ∧
        n.value = k := by
  unfold parsePositiveInteger
  dsimp only
  constructor
  · intro h
    split_ifs at h with hsign hbad
    rw [not_or] at hsign hbad
    rw [not_or] at hbad
    rcases exists_numeral value with ⟨spaces, rest, n, hspaces, hrest, rfl⟩ | hnone
    swap
    · -- Where nothing is converted the number is zero, which is refused.
      rw [hnone] at hbad
      exact absurd rfl hbad.2.2
    rw [strtoul_append hspaces n hrest] at h hbad
    obtain ⟨hrange, hend, hzero⟩ := hbad
    obtain rfl := not_not.1 hend
    rw [List.append_nil] at hsign ⊢
    refine ⟨spaces, n, ⟨hspaces, fun hminus hnil => hsign.2 ?_, by simpa using hrange,
      Nat.pos_of_ne_zero hzero⟩, rfl, Option.some.inj h⟩
    exact (head?_eq_minus_iff hspaces n).2 ⟨hnil, hminus⟩
  · rintro ⟨spaces, n, hnumber, rfl, rfl⟩
    have hne : spaces ++ n.text ≠ [] := by simp [n.text_ne_nil]
    have hfirst : (spaces ++ n.text).head? ≠ some 45 := fun h => by
      obtain ⟨hnil, hminus⟩ := (head?_eq_minus_iff hnumber.blank n).1 h
      exact hnumber.minus hminus hnil
    have hlt := hnumber.magnitude_lt
    have hpos := hnumber.value_pos
    rw [if_neg (not_or.2 ⟨hne, hfirst⟩), strtoul_text hnumber.blank]
    dsimp only
    rw [if_neg (by simp; omega)]

/-! ## Mappings -/

/-- A numeral has no colon. -/
theorem colon_notMem_text (n : Numeral) : colon ∉ n.text := fun h =>
  absurd (Numeral.mem_text h) (by decide)

/-- There is no colon in white space and a number. -/
theorem colon_notMem_append {spaces : Text} (hspaces : Blank spaces) (n : Numeral) :
    colon ∉ spaces ++ n.text := by
  rw [List.mem_append, not_or]
  exact ⟨hspaces.notMem (by decide), colon_notMem_text n⟩

/-- What `parse_port_mapping` takes: two numbers that it takes as positive, none beyond 65535, with
a colon between them, in fewer than 64 bytes. -/
theorem parsePortMapping_eq_some_iff_text {value : Text} {hostPort targetPort : UInt32} :
    parsePortMapping value = some (hostPort, targetPort) ↔
      value.length < 64 ∧ ∃ before after, ∃ host target : Numeral,
        PositiveNumber before host ∧ PositiveNumber after target ∧
        value = before ++ host.text ++ colon :: (after ++ target.text) ∧
        host.value ≤ 65535 ∧ target.value ≤ 65535 ∧
        hostPort = UInt32.ofNat host.value ∧ targetPort = UInt32.ofNat target.value := by
  unfold parsePortMapping
  constructor
  · intro h
    -- The tests that are passed give the pieces of the text.
    split_ifs at h with hlong hsep
    rw [not_or, not_not] at hsep
    cases hhost : parsePositiveInteger (before colon value) with
    | none => simp [hhost] at h
    | some m =>
      cases htarget : parsePositiveInteger (after colon value) with
      | none => simp [hhost, htarget] at h
      | some k =>
        simp only [hhost, htarget] at h
        split_ifs at h with hbig
        rw [not_or, Nat.not_lt, Nat.not_lt] at hbig
        obtain ⟨rfl, rfl⟩ := Prod.mk.inj (Option.some.inj h)
        obtain ⟨s, host, hnumber, hhosttext, rfl⟩ :=
          parsePositiveInteger_eq_some_iff_text.1 hhost
        obtain ⟨s', target, hnumber', htargettext, rfl⟩ :=
          parsePositiveInteger_eq_some_iff_text.1 htarget
        refine ⟨Nat.not_le.1 hlong, s, s', host, target, hnumber, hnumber', ?_, hbig.1, hbig.2,
          rfl, rfl⟩
        rw [← hhosttext, ← htargettext, before_append_cons_after hsep.1]
  · rintro ⟨hlength, s, s', host, target, hnumber, hnumber', rfl, hhost, htarget, rfl, rfl⟩
    -- The colon is the only one, since neither number has one.
    have hcolon := colon_notMem_append hnumber.blank host
    have hcolon' := colon_notMem_append hnumber'.blank target
    have hfirst := parsePositiveInteger_eq_some_iff_text.2 ⟨s, host, hnumber, rfl, rfl⟩
    have hsecond := parsePositiveInteger_eq_some_iff_text.2 ⟨s', target, hnumber', rfl, rfl⟩
    have hmem : colon ∈ s ++ host.text ++ colon :: (s' ++ target.text) :=
      List.mem_append_right _ List.mem_cons_self
    rw [if_neg (Nat.not_le.2 hlength), before_append_cons hcolon, after_append_cons hcolon,
      if_neg (not_or.2 ⟨not_not.2 hmem, hcolon'⟩), hfirst, hsecond]
    dsimp only
    rw [if_neg (by omega)]

/-! ## The documented form -/

/-- The text is `hostPort:targetPort` in decimal digits, in fewer than 64 bytes, with both ports
between 1 and 65535. -/
structure IsMapping (value : Text) (hostPort targetPort : ℕ) : Prop where
  length_lt : value.length < 64
  digits : ∃ host target, host ≠ [] ∧ target ≠ [] ∧ (∀ b ∈ host, isDigit b = true) ∧
    (∀ b ∈ target, isDigit b = true) ∧ value = host ++ colon :: target ∧
    digitsValue host = hostPort ∧ digitsValue target = targetPort
  hostPort : 1 ≤ hostPort ∧ hostPort ≤ 65535
  targetPort : 1 ≤ targetPort ∧ targetPort ≤ 65535

/-- The text has the form of a mapping, but with white space or a sign in front of a number. -/
def LaxMapping (value : Text) : Prop :=
  value.length < 64 ∧ ∃ before after, ∃ host target : Numeral,
    PositiveNumber before host ∧ PositiveNumber after target ∧
    value = before ++ host.text ++ colon :: (after ++ target.text) ∧
    host.value ≤ 65535 ∧ target.value ≤ 65535 ∧
    (before ≠ [] ∨ after ≠ [] ∨ host.sign ≠ .none ∨ target.sign ≠ .none)

/-- `parse_port_mapping` with the two variables that it stores the ports to. -/
def storePortMapping (value : Text) (ports : UInt32 × UInt32) : Bool × UInt32 × UInt32 :=
  match parsePortMapping value with
  | some parsed => (true, parsed)
  | none => (false, ports)

/-- `parse_port_mapping` returns true exactly on texts of the documented form, and then stores their
ports. It stores nothing for any other text. -/
structure ParsedExactly (value : Text) : Prop where
  accepted : ∀ ports, (storePortMapping value ports).1 = true ↔
    ∃ hostPort targetPort, IsMapping value hostPort targetPort
  stored : ∀ ports hostPort targetPort, IsMapping value hostPort targetPort →
    (storePortMapping value ports).2.1.toNat = hostPort ∧
      (storePortMapping value ports).2.2.toNat = targetPort
  unchanged : ∀ ports, (¬∃ hostPort targetPort, IsMapping value hostPort targetPort) →
    (storePortMapping value ports).2 = ports

/-- Digits are a number without a sign. -/
def plainNumeral {digits : Text} (hne : digits ≠ []) (hdigits : ∀ b ∈ digits, isDigit b = true) :
    Numeral :=
  ⟨.none, digits, hne, hdigits⟩

/-- Digits of a port are taken as they are. -/
theorem positiveNumber_plainNumeral {digits : Text} (hne : digits ≠ [])
    (hdigits : ∀ b ∈ digits, isDigit b = true) (hpos : 1 ≤ digitsValue digits)
    (hle : digitsValue digits ≤ 65535) :
    PositiveNumber [] (plainNumeral hne hdigits) ∧
      (plainNumeral hne hdigits).value = digitsValue digits := by
  have hmagnitude : (plainNumeral hne hdigits).magnitude = digitsValue digits := rfl
  have hsign : (plainNumeral hne hdigits).sign ≠ .minus := nofun
  have hlt : (plainNumeral hne hdigits).magnitude < 2 ^ 64 := by omega
  have hvalue := Numeral.value_eq_magnitude hsign hlt
  rw [hmagnitude] at hvalue
  exact ⟨⟨blank_nil, fun h => absurd h hsign, hlt, by omega⟩, hvalue⟩

/-- A mapping of the documented form is parsed as it is meant. -/
theorem parsePortMapping_of_isMapping {value : Text} {hostPort targetPort : ℕ}
    (h : IsMapping value hostPort targetPort) :
    parsePortMapping value = some (UInt32.ofNat hostPort, UInt32.ofNat targetPort) := by
  obtain ⟨hlength, ⟨host, target, hne, hne', hdigits, hdigits', rfl, rfl, rfl⟩, hhost, htarget⟩ := h
  obtain ⟨hnumber, hvalue⟩ := positiveNumber_plainNumeral hne hdigits hhost.1 hhost.2
  obtain ⟨hnumber', hvalue'⟩ := positiveNumber_plainNumeral hne' hdigits' htarget.1 htarget.2
  refine parsePortMapping_eq_some_iff_text.2 ⟨hlength, [], [], _, _, hnumber, hnumber', rfl, ?_, ?_,
    ?_, ?_⟩
  · rw [hvalue]
    exact hhost.2
  · rw [hvalue']
    exact htarget.2
  · rw [hvalue]
  · rw [hvalue']

/-- What is parsed has the documented form, or it is a lax mapping. -/
theorem isMapping_or_laxMapping {value : Text} {ports : UInt32 × UInt32}
    (h : parsePortMapping value = some ports) :
    (∃ hostPort targetPort, IsMapping value hostPort targetPort) ∨ LaxMapping value := by
  obtain ⟨hlength, s, s', host, target, hnumber, hnumber', rfl, hhost, htarget, -⟩ :=
    parsePortMapping_eq_some_iff_text.1 h
  by_cases hplain : s = [] ∧ s' = [] ∧ host.sign = .none ∧ target.sign = .none
  · left
    obtain ⟨rfl, rfl, hsign, hsign'⟩ := hplain
    have htext : ∀ n : Numeral, n.sign = .none → n.text = n.digits := fun n hn => by
      rw [Numeral.text, hn]
      rfl
    have hvalue : ∀ n : Numeral, n.sign = .none → n.magnitude < 2 ^ 64 →
        digitsValue n.digits = n.value := fun n hn hlt =>
      (Numeral.value_eq_magnitude (by rw [hn]; decide) hlt).symm
    refine ⟨host.value, target.value, hlength, ⟨host.digits, target.digits, host.ne_nil,
      target.ne_nil, host.isDigit, target.isDigit, ?_, hvalue host hsign hnumber.magnitude_lt,
      hvalue target hsign' hnumber'.magnitude_lt⟩, ⟨hnumber.value_pos, hhost⟩,
      ⟨hnumber'.value_pos, htarget⟩⟩
    rw [htext host hsign, htext target hsign']
    rfl
  · right
    refine ⟨hlength, s, s', host, target, hnumber, hnumber', rfl, hhost, htarget, ?_⟩
    tauto

/-- A lax mapping does not have the documented form. -/
theorem LaxMapping.not_isMapping {value : Text} (h : LaxMapping value) {hostPort targetPort : ℕ} :
    ¬IsMapping value hostPort targetPort := by
  rintro ⟨-, ⟨ds, es, -, -, hds, hes, heq, -, -⟩, -, -⟩
  obtain ⟨-, s, s', host, target, hnumber, hnumber', rfl, -, -, hlax⟩ := h
  -- The two texts in front of the colons are the same, and so are those behind them.
  have hcolon : colon ∉ ds := fun h => absurd (hds colon h) (by decide)
  have hcolon' := colon_notMem_append hnumber.blank host
  have hfirst := congrArg (before colon) heq
  have hsecond := congrArg (after colon) heq
  rw [before_append_cons hcolon', before_append_cons hcolon] at hfirst
  rw [after_append_cons hcolon', after_append_cons hcolon] at hsecond
  -- White space and signs are no digits.
  have hnone : ∀ (spaces : Text) (n : Numeral), Blank spaces →
      (∀ b ∈ spaces ++ n.text, isDigit b = true) → spaces = [] ∧ n.sign = .none := by
    intro spaces n hspaces hdigits
    refine ⟨List.eq_nil_iff_forall_not_mem.2 fun b hb => ?_, ?_⟩
    · have hno := isSpace_of_isDigit (hdigits b (List.mem_append_left _ hb))
      rw [hspaces b hb] at hno
      cases hno
    · cases hsign : n.sign with
      | none => rfl
      | plus =>
        have hmem : (43 : UInt8) ∈ n.text := by simp [Numeral.text, hsign, Sign.text]
        exact absurd (hdigits 43 (List.mem_append_right _ hmem)) (by decide)
      | minus =>
        have hmem : (45 : UInt8) ∈ n.text := by simp [Numeral.text, hsign, Sign.text]
        exact absurd (hdigits 45 (List.mem_append_right _ hmem)) (by decide)
  obtain ⟨hnil, hsign⟩ := hnone s host hnumber.blank (hfirst ▸ hds)
  obtain ⟨hnil', hsign'⟩ := hnone s' target hnumber'.blank (hsecond ▸ hes)
  tauto

/-- A lax mapping is parsed. -/
theorem LaxMapping.exists_parsed {value : Text} (h : LaxMapping value) :
    ∃ ports, parsePortMapping value = some ports := by
  obtain ⟨hlength, s, s', host, target, hnumber, hnumber', heq, hhost, htarget, -⟩ := h
  exact ⟨(_, _), parsePortMapping_eq_some_iff_text.2 ⟨hlength, s, s', host, target, hnumber,
    hnumber', heq, hhost, htarget, rfl, rfl⟩⟩

/-- `parse_port_mapping` parses exactly the documented form on every text that is no lax mapping. -/
theorem parsedExactly_iff (value : Text) : ParsedExactly value ↔ ¬LaxMapping value := by
  constructor
  · intro h hlax
    obtain ⟨ports, hports⟩ := hlax.exists_parsed
    obtain ⟨hostPort, targetPort, hmapping⟩ := (h.accepted (0, 0)).1 (by
      rw [storePortMapping, hports])
    exact hlax.not_isMapping hmapping
  · intro hstrict
    have hparsed : ∀ hostPort targetPort, IsMapping value hostPort targetPort → ∀ ports,
        storePortMapping value ports =
          (true, UInt32.ofNat hostPort, UInt32.ofNat targetPort) := by
      intro hostPort targetPort h ports
      rw [storePortMapping, parsePortMapping_of_isMapping h]
    have hnot : (¬∃ hostPort targetPort, IsMapping value hostPort targetPort) → ∀ ports,
        storePortMapping value ports = (false, ports) := by
      intro hno ports
      rw [storePortMapping]
      cases hports : parsePortMapping value with
      | none => rfl
      | some parsed => exact absurd (isMapping_or_laxMapping hports) (not_or.2 ⟨hno, hstrict⟩)
    refine ⟨fun ports => ⟨fun htrue => ?_, ?_⟩, fun ports hostPort targetPort h => ?_,
      fun ports hno => by rw [hnot hno]⟩
    · by_contra hno
      rw [hnot hno] at htrue
      cases htrue
    · rintro ⟨hostPort, targetPort, h⟩
      rw [hparsed hostPort targetPort h]
    · have hhost := h.hostPort
      have htarget := h.targetPort
      rw [hparsed hostPort targetPort h]
      simp only [UInt32.toNat_ofNat']
      omega

/-- A sign in front of both ports. -/
theorem signed_ports_parsed :
    parsePortMapping (lit "+80:+80") = some (80, 80) ∧ ¬ParsedExactly (lit "+80:+80") := by
  have hparsed : parsePortMapping (lit "+80:+80") = some (80, 80) := by decide
  refine ⟨hparsed, fun h => ?_⟩
  obtain ⟨hostPort, targetPort, -, ⟨ds, es, -, -, hds, hes, heq, -, -⟩, -⟩ :=
    (h.accepted (0, 0)).1 (by rw [storePortMapping, hparsed])
  -- The plus sign would be a digit of the host port.
  cases ds with
  | nil => exact absurd (List.cons.inj heq).1 (by decide)
  | cons b ds =>
    have hdigit := hds b List.mem_cons_self
    rw [← (List.cons.inj heq).1] at hdigit
    exact absurd hdigit (by decide)

end LibPolyCall.Config
