import Mathlib.Data.List.NodupEquivFin
import Curf.Balancer.Guards

/-!
# Outcomes by URL

An outcome is reported for a URL and goes to the first backend that has it, while
`select` returns backends by position. `Reported u` follows the outcomes of one URL:
the failures in a row and the time of the last. After five of them no backend with
this URL should be returned for 30 seconds.

A URL that stands in the list again stands there with a breaker that hears of
nothing. And the first backend forgets its failures when it is half-opened.
-/

namespace Curf

open Lib

/-- The clock reading of a call. -/
def GuardEvent.reading : GuardEvent → Option UInt64
  | .select _ now | .failure _ now => some now
  | .drop _ | .success _ => none

/-- The failures in a row reported for `url`, of which there were `n`. -/
def GuardEvent.inRow (url : String) (n : Nat) : GuardEvent → Nat
  | .success u => if u = url then 0 else n
  | .failure u _ => if u = url then n + 1 else n
  | .select _ _ | .drop _ => n

/-- When the last failure was reported for `url`. -/
def GuardEvent.last (url : String) (last : UInt64) : GuardEvent → UInt64
  | .failure u now => if u = url then now else last
  | .success _ | .select _ _ | .drop _ => last

/-- A load balancer with what has been reported for a URL. -/
structure Reported where
  balancer : Guarded
  clock : UInt64
  /-- The failures since the last success. -/
  inRow : Nat
  /-- When the last one was reported. -/
  last : UInt64

namespace Reported

open LoadBalancer

def start (cfg : DomainConfig) : Reported := ⟨.start cfg, 0, 0, 0⟩

def step (url : String) (s : Reported) (e : GuardEvent) : Option Reported :=
  (s.balancer.step e).map fun balancer =>
    ⟨balancer, e.reading.getD s.clock, e.inRow url s.inRow, e.last url s.last⟩

/-- The clock does not go back. -/
def Forward (s : Reported) (e : GuardEvent) : Prop := ∀ now, e.reading = some now → s.clock ≤ now

instance (s : Reported) : ∀ e, Decidable (Forward s e)
  | .select _ now | .failure _ now => decidable_of_iff (s.clock ≤ now) (by simp [Forward, GuardEvent.reading])
  | .drop _ | .success _ => .isTrue nofun

/-- A backend with this URL is to be left alone at `now`: five failures in a row have
been reported, the last of them less than 30 seconds ago. -/
def Barred (s : Reported) (now : UInt64) : Prop := 5 ≤ s.inRow ∧ now.toNat < s.last.toNat + 30

/-- No backend with this URL is returned while it is to be left alone. -/
def Blocked (url : String) (s : Reported) : GuardEvent → Prop
  | .select ip now => s.Barred now → ∀ i, (s.balancer.lb.select ip now).1 ≠ some (url, i)
  | _ => True

/-- While the URL is to be left alone, each backend that has it and whose circuit is
closed all the same is passed over for another. -/
def Diverted (url : String) (s : Reported) : GuardEvent → Prop
  | .select ip now => s.Barred now → ∀ i < s.balancer.lb.backends.length,
      s.balancer.lb.urls[i]? = some url → circuitAt s.balancer.lb.backends i = false →
        s.balancer.lb.PassedOver ip now i
  | _ => True

instance (s : Reported) (now : UInt64) : Decidable (s.Barred now) := inferInstanceAs (Decidable (_ ∧ _))

instance (url : String) (s : Reported) : ∀ e, Decidable (Diverted url s e)
  | .select ip now => inferInstanceAs (Decidable (s.Barred now → ∀ i < s.balancer.lb.backends.length,
      s.balancer.lb.urls[i]? = some url → circuitAt s.balancer.lb.backends i = false →
        s.balancer.lb.PassedOver ip now i))
  | .drop _ | .success _ | .failure _ _ => .isTrue trivial

/-- A failure that follows five others finds the circuit open: it has not been
half-opened since. -/
def FindsOpen (url : String) (s : Reported) : GuardEvent → Prop
  | .failure u _ => u = url → 5 ≤ s.inRow →
      ∀ i, s.balancer.lb.find url = some i → circuitAt s.balancer.lb.backends i = true
  | _ => True

instance (url : String) (s : Reported) : ∀ e, Decidable (FindsOpen url s e)
  | .failure u _ =>
    decidable_of_iff (u = url → 5 ≤ s.inRow →
      (s.balancer.lb.find url).all (circuitAt s.balancer.lb.backends) = true)
      (by simp [FindsOpen, Option.all_eq_true])
  | .select _ _ | .drop _ | .success _ => .isTrue trivial

variable {url : String} {s s' : Reported} {e : GuardEvent} {cfg : DomainConfig} {i : Nat} {b : Backend}

theorem balancer_step (hs : s.step url e = some s') : s.balancer.step e = some s'.balancer := by
  obtain ⟨m, hm, rfl⟩ := Option.map_eq_some_iff.mp hs
  exact hm

theorem find_step (hs : s.step url e = some s') (u : String) : s'.balancer.lb.find u = s.balancer.lb.find u := by
  rw [find_eq, find_eq, (Guarded.frame_step (balancer_step hs)).2]

/-- Another URL is found elsewhere. -/
theorem find_ne_of_find {lb : LoadBalancer} (hi : lb.find url = some i) {u : String} (hu : u ≠ url) :
    lb.find u ≠ some i := by
  intro hf
  have := (urls_of_find hf).symm.trans (urls_of_find hi)
  exact hu (Option.some.inj this)

/-- What an event does to the first backend with the URL, which is in position `i`. -/
def afterEvent (url : String) (lb : LoadBalancer) (i : Nat) (b : Backend) : GuardEvent → Backend
  | .select ip now => lb.afterSelect ip now i b
  | .drop j => if j = i then b.release else b
  | .success u => if u = url then b.recordSuccess else b
  | .failure u now => if u = url then b.recordFailure now else b

theorem backend_step (hs : s.step url e = some s') (hi : s.balancer.lb.find url = some i)
    (hb : s.balancer.lb.backends[i]? = some b) :
    s'.balancer.lb.backends[i]? = some (afterEvent url s.balancer.lb i b e) := by
  have hmoves := Guarded.moves_of_step (balancer_step hs)
  generalize s'.balancer = m at hmoves ⊢
  cases hmoves with
  | unserved => exact select_backend hb
  | selected => exact select_backend hb
  | dropped => exact dropGuard_backend _ hb
  | @succeeded u =>
    by_cases hu : u = url
    · subst hu
      simp only [afterEvent, if_true]
      exact success_found hi hb
    · simp only [afterEvent, if_neg hu]
      exact (success_other (find_ne_of_find hi hu)).trans hb
  | @failed u now =>
    by_cases hu : u = url
    · subst hu
      simp only [afterEvent, if_true]
      exact failure_found hi hb
    · simp only [afterEvent, if_neg hu]
      exact (failure_other (find_ne_of_find hi hu)).trans hb

theorem backend_back (hs : s.step url e = some s') (hi : s'.balancer.lb.find url = some i)
    (hb : s'.balancer.lb.backends[i]? = some b) :
    ∃ b₀, s.balancer.lb.find url = some i ∧ s.balancer.lb.backends[i]? = some b₀ ∧
      b = afterEvent url s.balancer.lb i b₀ e := by
  rw [find_step hs] at hi
  obtain ⟨b₀, hb₀⟩ := backend_of_find hi
  rw [backend_step hs hi hb₀] at hb
  exact ⟨b₀, hi, hb₀, (Option.some.inj hb).symm⟩

/-! ## The backends that share a URL -/

/-- What the breakers of the backends with the URL say. -/
structure Tracks (url : String) (s : Reported) : Prop where
  /-- Only the first of the backends hears of failures. -/
  others : ∀ i, s.balancer.lb.urls[i]? = some url → s.balancer.lb.find url ≠ some i →
    circuitAt s.balancer.lb.backends i = false
  last_le : 0 < s.inRow → s.last ≤ s.clock
  last : 0 < s.inRow → ∀ i b, s.balancer.lb.find url = some i → s.balancer.lb.backends[i]? = some b →
    b.lastFailure = s.last

theorem tracks_start (url : String) (cfg : DomainConfig) : Tracks url (start cfg) where
  others i _ _ := by
    show circuitAt (cfg.backends.map .new) i = false
    unfold circuitAt
    rw [List.getElem?_map]
    cases cfg.backends[i]? <;> rfl
  last_le := nofun
  last := nofun

theorem Tracks.others_step (h : Tracks url s) (hs : s.step url e = some s') (i : Nat)
    (hi : s'.balancer.lb.urls[i]? = some url) (hf : s'.balancer.lb.find url ≠ some i) :
    circuitAt s'.balancer.lb.backends i = false := by
  rw [find_step hs] at hf
  rw [(Guarded.frame_step (balancer_step hs)).2] at hi
  have hclosed := h.others i hi hf
  have hmoves := Guarded.moves_of_step (balancer_step hs)
  generalize s'.balancer = m at hmoves ⊢
  cases hmoves with
  | unserved => exact select_circuitAt_closed hclosed
  | selected => exact select_circuitAt_closed hclosed
  | dropped => exact dropGuard_circuitAt.trans hclosed
  | succeeded => exact success_circuitAt_closed hclosed
  | @failed u now =>
    refine (failure_circuitAt_other fun hu => ?_).trans hclosed
    obtain rfl := Option.some.inj ((urls_of_find hu).symm.trans hi)
    exact hf hu

/-- The last failure is not in the future. -/
theorem Tracks.last_le_step (h : Tracks url s) (hf : Forward s e) (hs : s.step url e = some s') (hrow : 0 < s'.inRow) :
    s'.last ≤ s'.clock := by
  obtain ⟨m, -, rfl⟩ := Option.map_eq_some_iff.mp hs
  cases e with
  | select ip now => exact UInt64.le_trans (h.last_le hrow) (hf now rfl)
  | drop j => exact h.last_le hrow
  | success u =>
    simp only [GuardEvent.inRow] at hrow
    split at hrow
    · cases hrow
    · exact h.last_le hrow
  | failure u now =>
    simp only [GuardEvent.inRow, GuardEvent.last, GuardEvent.reading, Option.getD_some] at hrow ⊢
    split
    · exact UInt64.le_refl _
    · rename_i hu
      rw [if_neg hu] at hrow
      exact UInt64.le_trans (h.last_le hrow) (hf now rfl)

/-- An event leaves the first backend with the time of the last failure. -/
theorem Tracks.last_afterEvent (h : Tracks url s) (hi : s.balancer.lb.find url = some i)
    (hb : s.balancer.lb.backends[i]? = some b) (hrow : 0 < e.inRow url s.inRow) :
    (afterEvent url s.balancer.lb i b e).lastFailure = e.last url s.last := by
  cases e with
  | select ip now => exact (afterSelect_lastFailure ..).trans (h.last hrow i b hi hb)
  | drop j =>
    have hlast := h.last hrow i b hi hb
    show (if j = i then b.release else b).lastFailure = s.last
    split
    · exact hlast
    · exact hlast
  | success u =>
    simp only [GuardEvent.inRow] at hrow
    by_cases hu : u = url
    · rw [if_pos hu] at hrow
      cases hrow
    · rw [if_neg hu] at hrow
      simp only [afterEvent, if_neg hu]
      exact h.last hrow i b hi hb
  | failure u now =>
    simp only [GuardEvent.inRow, GuardEvent.last] at hrow ⊢
    by_cases hu : u = url
    · simp only [afterEvent, if_pos hu]
      rfl
    · rw [if_neg hu] at hrow
      simp only [afterEvent, if_neg hu]
      exact h.last hrow i b hi hb

theorem Tracks.step (h : Tracks url s) (hf : Forward s e) (hs : s.step url e = some s') : Tracks url s' := by
  refine ⟨h.others_step hs, h.last_le_step hf hs, fun hrow i b hi hb => ?_⟩
  obtain ⟨b₀, hi₀, hb₀, rfl⟩ := backend_back hs hi hb
  obtain ⟨m, -, rfl⟩ := Option.map_eq_some_iff.mp hs
  exact h.last_afterEvent hi₀ hb₀ hrow

theorem Tracks.blocked_iff (h : Tracks url s) (hf : Forward s e) : Blocked url s e ↔ Diverted url s e := by
  cases e with
  | select ip now =>
    unfold Blocked Diverted
    refine forall_congr' fun hbarred => ?_
    have hclock : s.last ≤ now := UInt64.le_trans (h.last_le (by have := hbarred.1; omega)) (hf now rfl)
    -- a circuit that is open keeps its backend away
    have hopen : ∀ i, s.balancer.lb.urls[i]? = some url → circuitAt s.balancer.lb.backends i = true →
        ¬ AvailableAt s.balancer.lb.backends now i := by
      intro i hi ho
      refine not_availableAt_of_open ho fun b hb => ?_
      have hfirst : s.balancer.lb.find url = some i := by
        by_contra hne
        rw [h.others i hi hne] at ho
        cases ho
      rw [h.last (by have := hbarred.1; omega) i b hfirst hb, ← UInt64.not_le, Backend.cbResetSecs_le_iff hclock,
        Nat.not_le]
      exact hbarred.2
    constructor
    · intro hret i hlt hi hclosed
      rw [← pick_ne_iff_passedOver (availableAt_of_closed hlt hclosed)]
      intro hpick
      refine hret i ?_
      rw [select_fst, hpick, Option.map_some, urlAt_eq, hi]
      rfl
    · intro hdiv i hsel
      rw [select_fst] at hsel
      obtain ⟨j, hpick, he⟩ := Option.map_eq_some_iff.mp hsel
      obtain ⟨hurl, rfl⟩ := Prod.mk.inj he
      have hav := pick_available hpick
      have hi : s.balancer.lb.urls[j]? = some url := by
        obtain ⟨b, hb, -⟩ := hav
        rw [urlAt_eq, urls_getElem?, hb] at hurl
        rw [urls_getElem?, hb]
        exact congrArg some hurl
      have hclosed : circuitAt s.balancer.lb.backends j = false := by
        rw [Bool.eq_false_iff]
        exact fun ho => hopen j hi ho hav
      exact (pick_ne_iff_passedOver hav).mpr (hdiv j hav.lt hi hclosed) hpick
  | drop i => exact Iff.rfl
  | success u => exact Iff.rfl
  | failure u now => exact Iff.rfl

/-! ## A URL that stands in the list once -/

/-- The breaker of the first backend counts the failures in a row, the circuit being
open from the fifth on, until the last of them is 30 seconds old. -/
structure Remembers (url : String) (s : Reported) : Prop where
  few : s.inRow < 5 → ∀ i b, s.balancer.lb.find url = some i → s.balancer.lb.backends[i]? = some b →
    b.circuitOpen = false ∧ b.failures = UInt64.ofNat s.inRow
  many : 5 ≤ s.inRow → ∀ i b, s.balancer.lb.find url = some i → s.balancer.lb.backends[i]? = some b →
    b.circuitOpen = true ∨ s.last.toNat + 30 ≤ s.clock.toNat

theorem remembers_start (url : String) (cfg : DomainConfig) : Remembers url (start cfg) where
  few _ i b _ hb := by
    have hb : (cfg.backends.map Backend.new)[i]? = some b := hb
    rw [List.getElem?_map] at hb
    obtain ⟨u, -, rfl⟩ := Option.map_eq_some_iff.mp hb
    exact ⟨rfl, rfl⟩
  many hrow := by cases hrow

/-- A `select` half-opens the circuit only when the last failure is 30 seconds old. -/
theorem afterSelect_open {lb : LoadBalancer} {ip : Option IpAddr} {now : UInt64} (hopen : b.circuitOpen = true)
    (hclock : b.lastFailure ≤ now) :
    (lb.afterSelect ip now i b).circuitOpen = true ∨ b.lastFailure.toNat + 30 ≤ now.toNat := by
  by_cases ha : b.Available now
  · right
    exact (Backend.cbResetSecs_le_iff hclock).mp (ha.resolve_left (by simp [hopen]))
  · left
    unfold afterSelect
    rw [Backend.isHealthy_snd_of_not_available ha]
    split
    · exact hopen
    · rw [ite_self]
      exact hopen

/-- What becomes of the first backend in a `select`. -/
theorem Remembers.afterSelect (h : Remembers url s) (ht : Tracks url s) (hi : s.balancer.lb.find url = some i)
    (hb : s.balancer.lb.backends[i]? = some b) (ip : Option IpAddr) {now : UInt64} (hnow : s.clock ≤ now) :
    (s.inRow < 5 → (s.balancer.lb.afterSelect ip now i b).circuitOpen = false ∧
        (s.balancer.lb.afterSelect ip now i b).failures = UInt64.ofNat s.inRow) ∧
      (5 ≤ s.inRow → (s.balancer.lb.afterSelect ip now i b).circuitOpen = true ∨
        s.last.toNat + 30 ≤ now.toNat) := by
  constructor
  · intro hrow
    obtain ⟨hclosed, hfail⟩ := h.few hrow i b hi hb
    have hsame := afterSelect_of_closed hclosed s.balancer.lb ip now i
    exact ⟨hsame.1, hsame.2.trans hfail⟩
  · intro hrow
    have hlast := ht.last (by omega) i b hi hb
    have hle := UInt64.le_trans (ht.last_le (by omega)) hnow
    rcases h.many hrow i b hi hb with hopen | hold
    · rw [← hlast] at hle ⊢
      exact afterSelect_open hopen hle
    · right
      rw [UInt64.le_iff_toNat_le] at hnow
      omega

theorem Remembers.afterEvent (h : Remembers url s) (ht : Tracks url s) (hf : Forward s e) (ho : FindsOpen url s e)
    (hi : s.balancer.lb.find url = some i) (hb : s.balancer.lb.backends[i]? = some b) :
    (e.inRow url s.inRow < 5 → (afterEvent url s.balancer.lb i b e).circuitOpen = false ∧
        (afterEvent url s.balancer.lb i b e).failures = UInt64.ofNat (e.inRow url s.inRow)) ∧
      (5 ≤ e.inRow url s.inRow → (afterEvent url s.balancer.lb i b e).circuitOpen = true ∨
        (e.last url s.last).toNat + 30 ≤ (e.reading.getD s.clock).toNat) := by
  have hfew := fun hrow => h.few hrow i b hi hb
  have hmany := fun hrow => h.many hrow i b hi hb
  cases e with
  | select ip now => exact h.afterSelect ht hi hb ip (hf now rfl)
  | drop j =>
    have hsame : (Reported.afterEvent url s.balancer.lb i b (.drop j)).circuitOpen = b.circuitOpen ∧
        (Reported.afterEvent url s.balancer.lb i b (.drop j)).failures = b.failures := by
      show (if j = i then b.release else b).circuitOpen = _ ∧ (if j = i then b.release else b).failures = _
      split
      · exact ⟨rfl, rfl⟩
      · exact ⟨rfl, rfl⟩
    rw [hsame.1, hsame.2]
    exact ⟨hfew, hmany⟩
  | success u =>
    by_cases hu : u = url
    · simp only [GuardEvent.inRow, Reported.afterEvent, if_pos hu]
      exact ⟨fun _ => ⟨rfl, rfl⟩, nofun⟩
    · simp only [GuardEvent.inRow, Reported.afterEvent, if_neg hu]
      exact ⟨hfew, hmany⟩
  | failure u now =>
    by_cases hu : u = url
    · subst hu
      have hopen : 5 ≤ s.inRow → b.circuitOpen = true := fun hmore => by
        have hcircuit := ho rfl hmore i hi
        rwa [circuitAt, hb] at hcircuit
      obtain ⟨h1, h2⟩ := Backend.recordFailure_counts hfew hopen
      simp only [GuardEvent.inRow, Reported.afterEvent, if_true]
      exact ⟨h1, fun hrow => .inl (h2 hrow)⟩
    · have hnow : s.clock ≤ now := hf now rfl
      simp only [GuardEvent.inRow, GuardEvent.last, GuardEvent.reading, Option.getD_some, Reported.afterEvent, if_neg hu]
      refine ⟨hfew, fun hrow => (hmany hrow).imp_right fun hold => ?_⟩
      rw [UInt64.le_iff_toNat_le] at hnow
      omega

theorem Remembers.step (h : Remembers url s) (ht : Tracks url s) (hf : Forward s e) (ho : FindsOpen url s e)
    (hs : s.step url e = some s') : Remembers url s' := by
  have hback : ∀ i b, s'.balancer.lb.find url = some i → s'.balancer.lb.backends[i]? = some b →
      ∃ b₀, s.balancer.lb.find url = some i ∧ s.balancer.lb.backends[i]? = some b₀ ∧
        b = Reported.afterEvent url s.balancer.lb i b₀ e := fun i b hi hb => backend_back hs hi hb
  obtain ⟨m, -, rfl⟩ := Option.map_eq_some_iff.mp hs
  constructor
  · intro hrow i b hi hb
    obtain ⟨b₀, hi₀, hb₀, rfl⟩ := hback i b hi hb
    exact (h.afterEvent ht hf ho hi₀ hb₀).1 hrow
  · intro hrow i b hi hb
    obtain ⟨b₀, hi₀, hb₀, rfl⟩ := hback i b hi hb
    exact (h.afterEvent ht hf ho hi₀ hb₀).2 hrow

/-- A URL that stands in the list once is found in its only position. -/
theorem find_of_count {lb : LoadBalancer} (hcount : lb.urls.count url ≤ 1) (hi : lb.urls[i]? = some url) :
    lb.find url = some i := by
  obtain ⟨j, hj⟩ := find_isSome_of_urls hi
  by_cases hij : j = i
  · rw [hj, hij]
  · have hdup : List.Duplicate url lb.urls := by
      obtain ⟨hi, hi'⟩ := List.getElem?_eq_some_iff.mp hi
      obtain ⟨hj, hj'⟩ := List.getElem?_eq_some_iff.mp (urls_of_find hj)
      rw [List.duplicate_iff_exists_distinct_get]
      rcases Nat.lt_or_gt_of_ne hij with hlt | hlt
      · exact ⟨⟨j, hj⟩, ⟨i, hi⟩, hlt, hj'.symm, hi'.symm⟩
      · exact ⟨⟨i, hi⟩, ⟨j, hj⟩, hlt, hi'.symm, hj'.symm⟩
    rw [List.duplicate_iff_two_le_count] at hdup
    omega

/-- No circuit of such a backend is closed while it is to be left alone. -/
theorem Remembers.diverted (h : Remembers url s) (hf : Forward s e) (hcount : s.balancer.lb.urls.count url ≤ 1) :
    Diverted url s e := by
  cases e with
  | select ip now =>
    intro hbarred i hlt hi hclosed
    have hfirst := find_of_count hcount hi
    obtain ⟨b, hb⟩ := backend_of_find hfirst
    have hnow : s.clock ≤ now := hf now rfl
    rw [UInt64.le_iff_toNat_le] at hnow
    rw [circuitAt, hb] at hclosed
    rcases h.many hbarred.1 i b hfirst hb with hopen | hold
    · rw [show b.circuitOpen = false from hclosed] at hopen
      cases hopen
    · have := hbarred.2
      omega
  | drop i => trivial
  | success u => trivial
  | failure u now => trivial

/-- **Five failures in a row and what becomes of them.** In a run whose clock does not
go back, no backend with a URL is returned while it is to be left alone exactly when
each of them whose circuit is closed then is passed over. If the URL stands in the list
once, and no failure follows five others after the circuit has been half-opened, there
is none. -/
theorem barred_url_blocked_iff (url : String) (cfg : DomainConfig) {es : List GuardEvent}
    (hclock : Along (step url) Forward (start cfg) es) :
    (Along (step url) (Blocked url) (start cfg) es ↔ Along (step url) (Diverted url) (start cfg) es) ∧
      (cfg.backends.count url ≤ 1 → Along (step url) (FindsOpen url) (start cfg) es →
        Along (step url) (Blocked url) (start cfg) es) := by
  have hiff : Along (step url) (Blocked url) (start cfg) es ↔ Along (step url) (Diverted url) (start cfg) es := by
    have hstep : ∀ s e s', Tracks url s → Forward s e → step url s e = some s' → Tracks url s' :=
      fun s e s' h hf hs => h.step hf hs
    constructor
    · intro h
      exact Along.mono_inv (P := fun s e => Forward s e ∧ Blocked url s e) (fun _ _ _ h hP => hstep _ _ _ h hP.1)
        (fun _ _ h hP => (h.blocked_iff hP.1).mp hP.2) (tracks_start url cfg) (hclock.and h)
    · intro h
      exact Along.mono_inv (P := fun s e => Forward s e ∧ Diverted url s e) (fun _ _ _ h hP => hstep _ _ _ h hP.1)
        (fun _ _ h hP => (h.blocked_iff hP.1).mpr hP.2) (tracks_start url cfg) (hclock.and h)
  refine ⟨hiff, fun hcount hopen => hiff.mpr ?_⟩
  have hstart : (start cfg).balancer.lb.urls.count url ≤ 1 := by
    show (LoadBalancer.new cfg).urls.count url ≤ 1
    rw [urls_new]
    exact hcount
  refine Along.mono_inv (P := fun s e => Forward s e ∧ FindsOpen url s e)
    (I := fun s => Tracks url s ∧ Remembers url s ∧ s.balancer.lb.urls.count url ≤ 1) ?_ ?_
    ⟨tracks_start url cfg, remembers_start url cfg, hstart⟩ (hclock.and hopen)
  · rintro s e s' ⟨ht, hr, hc⟩ ⟨hf, ho⟩ hs
    refine ⟨ht.step hf hs, hr.step ht hf ho hs, ?_⟩
    rw [(Guarded.frame_step (balancer_step hs)).2]
    exact hc
  · rintro s e ⟨-, hr, hc⟩ ⟨hf, -⟩
    exact hr.diverted hf hc

/-- A URL fails five times and a sixth time while it is left alone, and once more after a
success. In the first list it stands twice, with another backend before the second place. -/
def failsAgain : List GuardEvent :=
  List.replicate 5 (.failure "http://a" 0) ++ [.select none 1, .drop 1, .failure "http://a" 20, .select none 40,
    .drop 1, .success "http://a", .failure "http://a" 41, .select none 42]

theorem barred_url_blocked_iff_again :
    Along (step "http://a") (Blocked "http://a")
        (start { backends := ["http://a", "http://b", "http://a"], loadBalance := .leastConnections }) failsAgain ∧
      Along (step "http://a") (Blocked "http://a") (start { backends := ["http://a", "http://b"] }) failsAgain :=
  ⟨(barred_url_blocked_iff "http://a"
      { backends := ["http://a", "http://b", "http://a"], loadBalance := .leastConnections } (by decide)).1.mpr
      (by decide),
    (barred_url_blocked_iff "http://a" { backends := ["http://a", "http://b"] } (by decide)).2 (by decide) (by decide)⟩

/-- **A URL that stands in the list twice.** Five failures open the circuit of the
first backend, and the second one is returned. -/
theorem repeated_url_returned :
    ¬ ∀ (url : String) (cfg : DomainConfig) (es : List GuardEvent),
      Along (step url) Forward (start cfg) es → Along (step url) (Blocked url) (start cfg) es := by
  intro h
  have hall := h "http://a" { backends := ["http://a", "http://a"] }
    (List.replicate 5 (.failure "http://a" 0) ++ [.select none 1]) (by decide)
  obtain ⟨s, hs⟩ : ∃ s, exec (step "http://a") (start { backends := ["http://a", "http://a"] })
    (List.replicate 5 (.failure "http://a" 0)) = some s := ⟨_, rfl⟩
  obtain ⟨-, hlast, -⟩ := Along.append hs hall
  cases hs
  exact hlast ⟨by decide, by decide⟩ 1 (by decide)

end Reported

end Curf
