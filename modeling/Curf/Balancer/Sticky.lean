import Curf.Lib.First
import Curf.Balancer.Guards

/-!
# The same client, the same backend

`ip_hash` goes round the backends from the hash of the client and takes the first
one available. Backends that become unavailable elsewhere do not change which one
that is, nor does anything else that other clients do.
-/

namespace Curf

open Lib

namespace LoadBalancer

variable {lb lb' : LoadBalancer} {ip : Option IpAddr} {now now' : UInt64} {i : Nat}

/-- **The choice of `ip_hash`** among fewer backends is the same if it is still there. -/
theorem pick_of_subset (hs : lb.strategy = .ipHash) (hs' : lb'.strategy = .ipHash)
    (hlen : lb'.backends.length = lb.backends.length)
    (hsub : ∀ j, AvailableAt lb'.backends now' j → AvailableAt lb.backends now j)
    (hp : lb.pick ip now = some i) (hi : AvailableAt lb'.backends now' i) : lb'.pick ip now' = some i := by
  unfold pick visits at hp ⊢
  rw [hs] at hp
  rw [hs', hlen]
  refine find?_of_subset (fun j hj => ?_) hp (decide_eq_true hi)
  exact decide_eq_true (hsub j (of_decide_eq_true hj))

/-- The same for `select`, which returns the backend with its URL. -/
theorem select_of_subset (hs : lb.strategy = .ipHash) (hs' : lb'.strategy = .ipHash) (hurls : lb'.urls = lb.urls)
    (hsub : ∀ j, AvailableAt lb'.backends now' j → AvailableAt lb.backends now j) {url : String}
    (hsel : (lb.select ip now).1 = some (url, i)) (hi : AvailableAt lb'.backends now' i) :
    (lb'.select ip now').1 = some (url, i) := by
  rw [select_fst] at hsel ⊢
  obtain ⟨j, hpick, he⟩ := Option.map_eq_some_iff.mp hsel
  obtain ⟨hurl, rfl⟩ := Prod.mk.inj he
  have hlen : lb'.backends.length = lb.backends.length := by
    have := congrArg List.length hurls
    rwa [urls, urls, List.length_map, List.length_map] at this
  rw [pick_of_subset hs hs' hlen hsub hpick hi, Option.map_some, urlAt_eq, hurls, ← urlAt_eq, hurl]

end LoadBalancer

namespace Guarded

open LoadBalancer

/-- When `ip` asks, the backend in position `i` is available, and none is that was not
available to `lb` at the time `now`. -/
def StaysUp (ip : Option IpAddr) (i : Nat) (lb : LoadBalancer) (now : UInt64) (s : Guarded) : GuardEvent → Prop
  | .select ip' now' => ip' = ip → AvailableAt s.lb.backends now' i ∧
      ∀ j < s.lb.backends.length, AvailableAt s.lb.backends now' j → AvailableAt lb.backends now j
  | .drop _ | .success _ | .failure _ _ => True

/-- When `ip` asks, it is `answer` that is returned. -/
def Returns (ip : Option IpAddr) (answer : String × Nat) (s : Guarded) : GuardEvent → Prop
  | .select ip' now => ip' = ip → (s.lb.select ip now).1 = some answer
  | .drop _ | .success _ | .failure _ _ => True

instance (ip : Option IpAddr) (i : Nat) (lb : LoadBalancer) (now : UInt64) (s : Guarded) :
    ∀ e, Decidable (StaysUp ip i lb now s e)
  | .select ip' now' => inferInstanceAs (Decidable (ip' = ip → AvailableAt s.lb.backends now' i ∧
      ∀ j < s.lb.backends.length, AvailableAt s.lb.backends now' j → AvailableAt lb.backends now j))
  | .drop _ | .success _ | .failure _ _ => .isTrue trivial

/-- **Sticky clients.** Let `select` return a backend to a client. It does so in every
state of the same load balancer in which that backend is available and no other one
is that was not. So along a run in which these hold whenever the client asks, it gets
this backend each time. -/
theorem same_backend {s : Guarded} (hs : s.lb.strategy = .ipHash) {ip : Option IpAddr} {now : UInt64}
    {url : String} {i : Nat} (hsel : (s.lb.select ip now).1 = some (url, i)) :
    (∀ (lb : LoadBalancer) (now' : UInt64), lb.strategy = .ipHash → lb.urls = s.lb.urls →
        (∀ j, AvailableAt lb.backends now' j → AvailableAt s.lb.backends now j) →
        AvailableAt lb.backends now' i → (lb.select ip now').1 = some (url, i)) ∧
      ∀ es : List GuardEvent, Along step (StaysUp ip i s.lb now) s es →
        Along step (Returns ip (url, i)) s es := by
  have hstate (lb : LoadBalancer) (now' : UInt64) (hs' : lb.strategy = .ipHash) (hurls : lb.urls = s.lb.urls)
      (hsub : ∀ j, AvailableAt lb.backends now' j → AvailableAt s.lb.backends now j)
      (hi : AvailableAt lb.backends now' i) : (lb.select ip now').1 = some (url, i) :=
    select_of_subset hs hs' hurls hsub hsel hi
  refine ⟨hstate, fun es hup => ?_⟩
  refine Along.mono_inv (I := fun m => m.lb.strategy = .ipHash ∧ m.lb.urls = s.lb.urls) ?_ ?_ ⟨hs, rfl⟩ hup
  · rintro m e m' ⟨hm, hurls⟩ - hstep
    obtain ⟨h1, h2⟩ := frame_step hstep
    exact ⟨h1.trans hm, h2.trans hurls⟩
  · rintro m e ⟨hm, hurls⟩ hkeep
    cases e with
    | select ip' now' =>
      rintro rfl
      obtain ⟨hi, hsub⟩ := hkeep rfl
      exact hstate m.lb now' hm hurls (fun j hj => hsub j hj.lt hj) hi
    | drop i => trivial
    | success url => trivial
    | failure url now => trivial

/-- The client of hash 1 keeps the second of three backends while the third one fails. -/
theorem same_backend_other_fails :
    Along step (Returns (some (.v4 1)) ("http://b", 1))
      (start { backends := ["http://a", "http://b", "http://c"], loadBalance := .ipHash })
      (List.replicate 5 (.failure "http://c" 0) ++ [.select (some (.v4 2)) 1, .select (some (.v4 1)) 2]) :=
  (@same_backend (start { backends := ["http://a", "http://b", "http://c"], loadBalance := .ipHash }) rfl
    (some (.v4 1)) 0 _ _ (by decide)).2 _ (by decide)

end Guarded

end Curf
