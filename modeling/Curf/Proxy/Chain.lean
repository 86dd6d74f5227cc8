import Curf.Proxy.Handle

/-!
# The chain of proxies

Each proxy on the way of a request adds the address it got it from to the list in
`X-Forwarded-For`, whose lines are one list. `add_forwarding_headers` reads the first line
and replaces all: `keepsChain_iff` says when nothing of the list is lost.
-/

namespace Curf

open Lib Lib.Multimap

/-! ## Lists in header values -/

/-- A space or a tab. -/
def isBlank (b : UInt8) : Bool := b = 32 || b = 9

def trimBlanks (v : Bytes) : Bytes := (v.dropWhile isBlank).rdropWhile isBlank

/-- The elements of a comma-separated list; empty ones do not count. -/
def elements (v : Bytes) : List Bytes := ((v.splitOn 44).map trimBlanks).filter (· ≠ [])

variable {v w : Bytes} {b : UInt8} {s : Text} {c : Char}

theorem elements_append (v w : Bytes) : elements (v ++ 44 :: w) = elements v ++ elements w := by
  rw [elements, List.splitOn_append_cons_self, List.map_append, List.filter_append]
  rfl

theorem trimBlanks_eq_self (h : ∀ b ∈ v, isBlank b = false) : trimBlanks v = v := by
  unfold trimBlanks
  have hfirst : v.dropWhile isBlank = v := by
    cases v with
    | nil => rfl
    | cons b v => rw [List.dropWhile_cons, h b List.mem_cons_self]; rfl
  rw [hfirst]
  exact List.rdropWhile_eq_self_iff.mpr fun hne => by simp [h _ (List.getLast_mem hne)]

/-- A word is the only element. -/
theorem elements_word (hne : v ≠ []) (h : ∀ b ∈ v, isBlank b = false ∧ b ≠ 44) : elements v = [v] := by
  have hcomma : (44 : UInt8) ∉ v := fun hmem => (h 44 hmem).2 rfl
  rw [elements, List.splitOn_eq_singleton hcomma, List.map_singleton, trimBlanks_eq_self fun b hb => (h b hb).1]
  simp [hne]

/-- Blanks in front of a list do not count. -/
theorem elements_blank (hb : isBlank b = true) (v : Bytes) : elements (b :: v) = elements v := by
  have hcomma : b ≠ 44 := by
    rintro rfl
    cases hb
  obtain ⟨x, xs, hsplit⟩ := List.exists_cons_of_ne_nil (List.splitOn_ne_nil 44 v)
  have htrim : trimBlanks (b :: x) = trimBlanks x := by
    unfold trimBlanks
    rw [List.dropWhile_cons_of_pos hb]
  rw [elements, elements, List.splitOn_cons_eq_if_modifyHead, if_neg (by simpa using hcomma), hsplit]
  show (trimBlanks (b :: x) :: xs.map trimBlanks).filter (· ≠ []) = (trimBlanks x :: xs.map trimBlanks).filter (· ≠ [])
  rw [htrim]

/-! ## The text of an address -/

theorem isHexDigit_of_mem_toDigits (n : Nat) : ∀ c ∈ Nat.toDigits 16 n, c.isHexDigit = true := by
  induction n using Nat.strongRecOn with
  | ind n ih =>
    have hdigit : ∀ k < 16, (Nat.digitChar k).isHexDigit = true := by decide
    intro c hc
    rw [Nat.toDigits_eq_if (by decide)] at hc
    split at hc
    · rename_i hn
      obtain rfl := List.mem_singleton.mp hc
      exact hdigit n hn
    · rename_i hn
      rcases List.mem_append.mp hc with hc | hc
      · exact ih (n / 16) (by omega) c hc
      · obtain rfl := List.mem_singleton.mp hc
        exact hdigit (n % 16) (Nat.mod_lt n (by decide))

theorem mem_intercalate {α : Type} {a x : α} {l : List (List α)} (h : x ∈ [a].intercalate l) :
    x = a ∨ ∃ t ∈ l, x ∈ t := by
  induction l with
  | nil => cases h
  | cons t l ih =>
    cases l with
    | nil => exact .inr ⟨t, List.mem_cons_self, by simpa [List.intercalate] using h⟩
    | cons u l =>
      rw [List.intercalate_cons_cons, List.append_assoc] at h
      rcases List.mem_append.mp h with h | h
      · exact .inr ⟨t, List.mem_cons_self, h⟩
      · rcases List.mem_cons.mp h with h | h
        · exact .inl h
        · rcases ih h with h | ⟨t', ht', h⟩
          · exact .inl h
          · exact .inr ⟨t', List.mem_cons_of_mem _ ht', h⟩

theorem ipv4Text_chars (addr : Nat) : ∀ c ∈ ipv4Text addr, isAddressChar c = true := by
  intro c hc
  rcases mem_intercalate hc with rfl | ⟨t, ht, hc⟩
  · rfl
  · obtain ⟨i, -, rfl⟩ := List.mem_map.mp ht
    have hdigit := Nat.isDigit_of_mem_toDigits (by decide) (by decide) hc
    simp [isAddressChar, Char.isHexDigit, hdigit]

theorem groupsText_chars (gs : List Nat) : ∀ c ∈ groupsText gs, isAddressChar c = true := by
  intro c hc
  rcases mem_intercalate hc with rfl | ⟨t, ht, hc⟩
  · rfl
  · obtain ⟨n, -, rfl⟩ := List.mem_map.mp ht
    simp [isAddressChar, isHexDigit_of_mem_toDigits n c hc]

/-- Addresses are written with digits, colons and dots. -/
theorem IpAddr.text_chars (ip : IpAddr) : ∀ c ∈ ip.text, isAddressChar c = true := by
  have hcolons : "::".toList.all isAddressChar = true := by decide
  have hmapped : "::ffff:".toList.all isAddressChar = true := by decide
  intro c hc
  unfold IpAddr.text at hc
  split at hc
  · exact ipv4Text_chars _ c hc
  · split at hc
    · rcases List.mem_append.mp hc with hc | hc
      · exact List.all_eq_true.mp hmapped c hc
      · exact ipv4Text_chars _ c hc
    · dsimp only at hc
      split at hc
      · rcases List.mem_append.mp hc with hc | hc
        · rcases List.mem_append.mp hc with hc | hc
          · exact groupsText_chars _ c hc
          · exact List.all_eq_true.mp hcolons c hc
        · exact groupsText_chars _ c hc
      · exact groupsText_chars _ c hc

theorem IpAddr.text_ne_nil (ip : IpAddr) : ip.text ≠ [] := by
  have hdots : ∀ addr, ipv4Text addr ≠ [] := by
    intro addr
    simp [ipv4Text, List.range_succ, List.intercalate]
  unfold IpAddr.text
  split
  · exact hdots _
  · split
    · exact fun h => hdots _ (List.append_eq_nil_iff.mp h).2
    · dsimp only
      split
      · simp
      · simp [groupsText, groups, List.range_succ, List.intercalate]

/-! ## Header values -/

/-- The text of plain bytes has their codes. -/
theorem headerToStr_plain (h : v.plain = true) : ∃ s, headerToStr v = some s ∧ utf8 s = v := by
  have hplain : ∀ b ∈ v, 32 ≤ b.toNat ∧ b.toNat < 127 := by
    intro b hb
    have := List.all_eq_true.mp h b hb
    simpa using this
  refine ⟨v.map fun b => Char.ofNat b.toNat, ?_, ?_⟩
  · rw [headerToStr, if_pos]
    rw [List.all_eq_true]
    intro b hb
    have := hplain b hb
    simp [this]
  · rw [utf8_eq_map, List.map_map]
    · refine (List.map_congr_left fun b hb => ?_).trans (List.map_id v)
      rw [Function.comp_apply, ← UInt8.toNat_inj]
      show (Char.ofNat b.toNat).toNat % 256 = b.toNat
      have := b.toNat_lt
      rw [toNat_ofNat_byte]
      omega
    · intro c hc
      obtain ⟨b, hb, rfl⟩ := List.mem_map.mp hc
      have := hplain b hb
      rw [toNat_ofNat_byte]
      omega

/-- What can be read as text is a header value. -/
theorem validValue_of_printable {C : Crates} (htab : C.valueByte 9 = true) (h : ∀ c ∈ s, Printable c) :
    C.validValue (utf8 s) = true := by
  have hascii : ∀ c ∈ s, c.toNat < 128 := by
    intro c hc
    rcases h c hc with hc | rfl
    · omega
    · decide
  unfold Crates.validValue
  rw [utf8_eq_map hascii, List.all_map, List.all_eq_true]
  intro c hc
  rcases h c hc with hrange | rfl
  · have hcode : c.toUInt8.toNat = c.toNat := toNat_toUInt8 (by omega)
    exact C.valueByte_visible _ (by omega) (by omega)
  · exact htab

/-! ## The chain -/

/-- The addresses that the lines of `X-Forwarded-For` list. -/
def chainOf (headers : HeaderMap) : List Bytes := (values headers "x-forwarded-for").flatMap elements

/-- The request is sent on with the address of the peer at the end of its chain, the address and
the host in headers of their own, and the other headers as they are. -/
def KeepsChain (headers : HeaderMap) (peer : IpAddr) (host : Text) (answer : Except Panic Request) : Prop :=
  ∃ sent, answer = .ok sent ∧ chainOf sent.headers = chainOf headers ++ [utf8 peer.text] ∧
    values sent.headers "x-real-ip" = [utf8 peer.text] ∧ values sent.headers "x-forwarded-host" = [utf8 host] ∧
    ∀ name, name ≠ "x-forwarded-for" → name ≠ "x-real-ip" → name ≠ "x-forwarded-host" →
      values sent.headers name = values headers name

variable {C : Crates} {headers : HeaderMap} {peer : IpAddr} {host : Text} {req : Request}

theorem get_eq_head_values (headers : HeaderMap) (name : String) :
    headers.get name = (values headers name).head? := by
  unfold HeaderMap.get values
  induction headers with
  | nil => rfl
  | cons p headers ih =>
    obtain ⟨key, v⟩ := p
    rw [List.lookup_cons, List.filter_cons]
    by_cases h : key = name
    · simp [h]
    · rw [beq_false_of_ne (Ne.symm h), if_neg (by simpa using h)]
      exact ih

theorem peer_printable (peer : IpAddr) : ∀ c ∈ peer.text, Printable c := by
  intro c hc
  have hvisible := visible_of_isAddressChar (peer.text_chars c hc)
  unfold Visible at hvisible
  exact .inl ⟨by omega, by omega⟩

theorem elements_peer (peer : IpAddr) : elements (utf8 peer.text) = [utf8 peer.text] := by
  refine elements_word (fun h => peer.text_ne_nil (utf8_eq_nil h)) fun b hb => ?_
  have hascii : ∀ c ∈ peer.text, c.toNat < 128 := fun c hc =>
    Nat.lt_trans (visible_of_isAddressChar (peer.text_chars c hc)).2 (by decide)
  rw [utf8_eq_map hascii] at hb
  obtain ⟨c, hc, rfl⟩ := List.mem_map.mp hb
  have hchar := peer.text_chars c hc
  have hvisible := visible_of_isAddressChar hchar
  have hcode : c.toUInt8.toNat = c.toNat := toNat_toUInt8 (hascii c hc)
  unfold Visible at hvisible
  constructor
  · simp only [isBlank, Bool.or_eq_false_iff, decide_eq_false_iff_not, ← UInt8.toNat_inj, hcode]
    exact ⟨fun h => by simp at h; omega, fun h => by simp at h; omega⟩
  · intro h
    have hcomma : c = ',' := by
      rw [← Char.toNat_inj, ← hcode, h]
      rfl
    subst hcomma
    cases hchar

/-- The line that replaces those of the request lists what the first of them does, and the
peer. -/
theorem elements_forwardedFor (htab : C.valueByte 9 = true)
    (hplain : ∀ v ∈ values headers "x-forwarded-for", v.plain = true) :
    elements (valueOrEmpty C
        (match (headers.get "x-forwarded-for").bind headerToStr with
        | some existing => existing ++ ", ".toList ++ peer.text
        | none => peer.text)) =
      ((values headers "x-forwarded-for").head?.toList.flatMap elements) ++ [utf8 peer.text] := by
  have hvalue : ∀ s : Text, (∀ c ∈ s, Printable c) → valueOrEmpty C s = utf8 s := fun s hs =>
    if_pos (validValue_of_printable htab hs)
  rw [get_eq_head_values]
  cases hv : (values headers "x-forwarded-for").head? with
  | none =>
    rw [Option.bind_none]
    dsimp only
    rw [hvalue _ (peer_printable peer), elements_peer]
    rfl
  | some v =>
    obtain ⟨s, hs, hbytes⟩ := headerToStr_plain (hplain v (List.mem_of_mem_head? hv))
    have hprintable : ∀ c ∈ s ++ ", ".toList ++ peer.text, Printable c := by
      intro c hc
      rcases List.mem_append.mp hc with hc | hc
      · rcases List.mem_append.mp hc with hc | hc
        · exact printable_of_headerToStr hs c hc
        · rcases List.mem_cons.mp hc with rfl | hc
          · exact .inl ⟨by decide, by decide⟩
          · obtain rfl := List.mem_singleton.mp hc
            exact .inl ⟨by decide, by decide⟩
      · exact peer_printable peer c hc
    have hjoin : utf8 (s ++ ", ".toList ++ peer.text) = v ++ 44 :: 32 :: utf8 peer.text := by
      rw [← hbytes]
      simp [utf8, String.utf8EncodeChar]
    rw [Option.bind_some, hs]
    dsimp only
    rw [hvalue _ hprintable, hjoin, elements_append, elements_blank rfl, elements_peer]
    simp

/-- The values after the three headers are put. -/
theorem values_forwarded (headers : HeaderMap) (xff ip host : Bytes) :
    let sent := putAll headers ([("x-forwarded-for", xff), ("x-real-ip", ip)] ++ [("x-forwarded-host", host)])
    values sent "x-forwarded-for" = [xff] ∧ values sent "x-real-ip" = [ip] ∧
      values sent "x-forwarded-host" = [host] ∧
      ∀ name, name ≠ "x-forwarded-for" → name ≠ "x-real-ip" → name ≠ "x-forwarded-host" →
        values sent name = values headers name := by
  intro sent
  refine ⟨values_putAll .., values_putAll .., values_putAll .., fun name h1 h2 h3 => ?_⟩
  have hlast : last ([("x-forwarded-for", xff), ("x-real-ip", ip)] ++ [("x-forwarded-host", host)]) name = none := by
    simp only [List.cons_append, List.nil_append, last_cons, if_neg h1, if_neg h2, if_neg h3, Option.or_none]
    rfl
  rw [values_putAll, hlast]

theorem forwardingHeaders_eq (htab : C.valueByte 9 = true) (hne : host ≠ []) (hhost : ∀ c ∈ host, Printable c)
    (hplain : ∀ v ∈ values headers "x-forwarded-for", v.plain = true) :
    ∃ xff, forwardingHeaders C headers peer host =
        [("x-forwarded-for", xff), ("x-real-ip", utf8 peer.text)] ++ [("x-forwarded-host", utf8 host)] ∧
      elements xff = (values headers "x-forwarded-for").head?.toList.flatMap elements ++ [utf8 peer.text] := by
  have hpeer : valueOrEmpty C peer.text = utf8 peer.text :=
    if_pos (validValue_of_printable htab (peer_printable peer))
  have hname : (if host ≠ [] ∧ C.validValue (utf8 host) then [("x-forwarded-host", utf8 host)] else []) =
      [("x-forwarded-host", utf8 host)] :=
    if_pos ⟨hne, validValue_of_printable htab hhost⟩
  refine ⟨_, ?_, elements_forwardedFor htab hplain⟩
  rw [← hpeer, ← hname]
  rfl

/-- **Which chains are kept.** A request that has room for the forwarding headers is sent on
with its whole chain exactly when the lines of `X-Forwarded-For` after the first are empty. -/
theorem keepsChain_iff (C : Crates) (htab : C.valueByte 9 = true) (req : Request) (peer : IpAddr)
    (inbound : HeaderMap) (hhost : hostOf C.caseTable inbound ≠ [])
    (hplain : ∀ v ∈ values req.headers "x-forwarded-for", v.plain = true) :
    KeepsChain req.headers peer (hostOf C.caseTable inbound)
        (addForwardingHeaders C req peer (hostOf C.caseTable inbound)) ↔
      FitsForwarding C req (hostOf C.caseTable inbound) peer ∧
        ∀ v ∈ (values req.headers "x-forwarded-for").tail, elements v = [] := by
  obtain ⟨xff, hps, hxff⟩ :=
    @forwardingHeaders_eq C req.headers peer _ htab hhost (printable_hostOf C.caseTable inbound) hplain
  unfold addForwardingHeaders FitsForwarding
  rw [putAllWithin_eq]
  by_cases hfits : Fits C.maxHeaders req.headers (forwardingHeaders C req.headers peer (hostOf C.caseTable inbound))
  · rw [if_pos hfits, and_iff_right hfits, hps]
    obtain ⟨hchain', hip, hforwarded, hother⟩ :=
      values_forwarded req.headers xff (utf8 peer.text) (utf8 (hostOf C.caseTable inbound))
    have hsplit : (values req.headers "x-forwarded-for").flatMap elements =
        (values req.headers "x-forwarded-for").head?.toList.flatMap elements ++
          (values req.headers "x-forwarded-for").tail.flatMap elements := by
      cases values req.headers "x-forwarded-for" <;> simp
    unfold KeepsChain chainOf
    constructor
    · rintro ⟨sent, hsent, hchain, -⟩
      cases hsent
      rw [hchain', List.flatMap_singleton, hxff, hsplit, List.append_left_inj, List.self_eq_append_right,
        List.flatMap_eq_nil_iff] at hchain
      exact hchain
    · intro hempty
      refine ⟨_, rfl, ?_, hip, hforwarded, hother⟩
      rw [hchain', List.flatMap_singleton, hxff, hsplit, List.flatMap_eq_nil_iff.mpr hempty, List.append_nil]
  · rw [if_neg hfits]
    refine iff_of_false ?_ fun h => hfits h.1
    rintro ⟨sent, hsent, -⟩
    cases hsent

/-- A request with these lines of `X-Forwarded-For`, and an address made up by the client. -/
def Request.forwardedFor (lines : List String) : Request :=
  .getRoot "a" (("x-real-ip", .ofString "9.9.9.9") :: lines.map fun line => ("x-forwarded-for", .ofString line))

/-- One line is kept, whatever it lists. -/
theorem keepsChain_iff_one_line :
    KeepsChain (Request.forwardedFor ["1.1.1.1,, 2.2.2.2"]).headers (.v4 7) "a".toList
      (addForwardingHeaders .sample (.forwardedFor ["1.1.1.1,, 2.2.2.2"]) (.v4 7) "a".toList) :=
  (keepsChain_iff .sample (by decide) (.forwardedFor ["1.1.1.1,, 2.2.2.2"]) (.v4 7)
    (Request.forwardedFor ["1.1.1.1,, 2.2.2.2"]).headers (by decide) (by decide)).mpr ⟨by decide, by decide⟩

/-- **Two lines.** The second one is lost. -/
theorem second_line_lost :
    ¬ ∀ (C : Crates) (req : Request) (peer : IpAddr) (inbound : HeaderMap), C.valueByte 9 = true →
      hostOf C.caseTable inbound ≠ [] → (∀ v ∈ values req.headers "x-forwarded-for", v.plain = true) →
      FitsForwarding C req (hostOf C.caseTable inbound) peer →
        KeepsChain req.headers peer (hostOf C.caseTable inbound)
          (addForwardingHeaders C req peer (hostOf C.caseTable inbound)) := by
  intro h
  obtain ⟨sent, hsent, hchain, -⟩ := h .sample (.forwardedFor ["1.1.1.1", "2.2.2.2"]) (.v4 7)
    (Request.forwardedFor []).headers (by decide) (by decide) (by decide) (by decide)
  have hlost : (addForwardingHeaders .sample (.forwardedFor ["1.1.1.1", "2.2.2.2"]) (.v4 7)
      (hostOf Crates.sample.caseTable (Request.forwardedFor []).headers)).toOption.map (chainOf ·.headers) =
        some [.ofString "1.1.1.1", .ofString "0.0.0.7"] := by decide
  rw [hsent] at hlost
  have hlist : chainOf sent.headers = [.ofString "1.1.1.1", .ofString "0.0.0.7"] := Option.some.inj hlost
  rw [hlist] at hchain
  exact absurd hchain (by decide)

end Curf
