import Mathlib.Logic.Function.Basic
import Reeva.Auth.RateLimits

/-!
# How many attempts pass

The row of a key is a counter of a fixed window (`ops`), whether or not expired rows are deleted, so the
bounds of such counters hold for the calls: for an identity whose attempts nobody clears
(`identity_limit`), and for an address, where a login that succeeds clears the attempts and so lets
another window's worth of requests pass (`address_limit`).
-/

open FixedWindow

namespace Reeva.Auth

variable {rt : Runtime} {now : ℕ} {t : RateLimits} {key : String} {c : Option Counter}

/-- An increment is a hit. -/
theorem merged_eq_hit (now : ℕ) (row : Option Counter) :
    merged now (now + minute) row = hit minute now row := by
  cases row with
  | none => rfl
  | some row =>
    simp only [merged, hit]
    split <;> rfl

/-- Rows that expired do not count. -/
theorem deleteExpired_apply (now : ℕ) (t : RateLimits) (key : String) :
    deleteExpired now t key = live now (t key) := by
  simp only [deleteExpired, live]
  congr 1
  funext row
  by_cases h : row.windowEnd ≤ now
  · simp only [h, Nat.not_lt.mpr h, decide_true, decide_false, Bool.not_true]
  · simp only [h, Nat.lt_of_not_le h, decide_true, decide_false, Bool.not_false]

/-- A row counts like `c`. -/
def CountsAs (now : ℕ) (row c : Option Counter) : Prop := live now row = live now c

theorem CountsAs.later {row : Option Counter} (h : CountsAs now row c) {later : ℕ} (hle : now ≤ later) :
    CountsAs later row c := by
  rw [CountsAs, ← live_live hle row, h, live_live hle c]

theorem CountsAs.hit_eq {row : Option Counter} (h : CountsAs now row c) :
    hit minute now row = hit minute now c := by
  rw [← hit_live now row, h, hit_live]

/-- A deletion of expired rows makes no difference. -/
theorem CountsAs.deleteExpired (h : CountsAs now (t key) c) :
    CountsAs now (deleteExpired now t key) c := by
  rw [CountsAs, deleteExpired_apply, live_live (Nat.le_refl _)]
  exact h

/-! ## Keys -/

/-- The subjects of the counters. -/
inductive Subject
  | ip
  | identity
  deriving DecidableEq, Repr

/-- The name of a subject. -/
def Subject.text : Subject → String
  | ip => "ip"
  | identity => "identity"

/-- The keys of different counters differ, as far as their texts do. -/
theorem rateLimitKey_inj (hsha : rt.sha256.Injective) {a a' : Action} {s s' : Subject}
    {v v' : String} (h : rateLimitKey rt a s.text v = rateLimitKey rt a' s'.text v') :
    a = a' ∧ s = s' ∧ v = v' := by
  have htext := congrArg String.toList (hsha h)
  simp only [String.toList_append, List.append_assoc] at htext
  have hv : v.toList = v'.toList → v = v' := String.toList_inj.mp
  cases a <;> cases a' <;> cases s <;> cases s' <;>
    simp_all [Action.text, Subject.text]

/-- The limit of a counter. -/
def limitOf (action : Action) : Subject → ℕ
  | .ip => ipLimit action
  | .identity => identityLimit action

/-- What a call counts for a subject. -/
def Subject.value (rt : Runtime) (ip identity : String) : Subject → String
  | .ip => ip
  | .identity => normalizedIdentity rt identity

/-- The key under which a call counts for a subject. -/
def keyOf (rt : Runtime) (action : Action) (s : Subject) (ip identity : String) : String :=
  rateLimitKey rt action s.text (s.value rt ip identity)

/-! ## What a call does to one counter -/

variable (rt key) in
/-- What a call does to the counter of a key. -/
def touches (now : ℕ) (t : RateLimits) : Call → List Op
  | .isAuthRequestThrottled action ip identity =>
    if keyOf rt action .ip ip identity = key then [.hit]
    else if keyOf rt action .identity ip identity = key ∧
        (hit minute now (t (keyOf rt action .ip ip identity))).attempts ≤ ipLimit action then [.hit]
    else []
  | .clearLoginAttempts ip identity =>
    if key ∈ [keyOf rt .login .ip ip identity, keyOf rt .login .identity ip identity] then [.clear]
    else []

variable (rt key) in
/-- What calls do to the counter of a key. -/
def ops : RateLimits → List (ℕ × Call) → List (ℕ × Op)
  | _, [] => []
  | t, (now, call) :: calls =>
    (touches rt key now t call).map (now, ·) ++ ops (call.run rt now t).2 calls

/-- The answer of `isAuthRequestThrottled` and the rows after it, in terms of hits. -/
theorem throttled_eq (action : Action) (ip identity : String) :
    let ipKey := keyOf rt action .ip ip identity
    let identityKey := keyOf rt action .identity ip identity
    let t₁ := Function.update t ipKey (some (hit minute now (t ipKey)))
    isAuthRequestThrottled rt action ip identity now t =
      if ipLimit action < (hit minute now (t ipKey)).attempts then (true, deleteExpired now t₁)
      else (identityLimit action < (hit minute now (t₁ identityKey)).attempts,
        deleteExpired now
          (Function.update t₁ identityKey (some (hit minute now (t₁ identityKey))))) := by
  simp only [isAuthRequestThrottled, incrementCounter, merged_eq_hit]
  rfl

/-- The keys of one call differ. -/
theorem keyOf_ne (hsha : rt.sha256.Injective) (action : Action) (ip identity : String) :
    keyOf rt action .ip ip identity ≠ keyOf rt action .identity ip identity := fun h => by
  cases (rateLimitKey_inj hsha h).2.1

/-- After a call the row of a key counts like the counter. -/
theorem countsAs_run (hsha : rt.sha256.Injective) (h : CountsAs now (t key) c) (call : Call) :
    CountsAs now ((call.run rt now t).2 key)
      (final minute c ((touches rt key now t call).map (now, ·))) := by
  cases call with
  | clearLoginAttempts ip identity =>
    have hrun : ((Call.clearLoginAttempts ip identity).run rt now t).2 key =
        if key ∈ [keyOf rt .login .ip ip identity, keyOf rt .login .identity ip identity] then none
        else t key := rfl
    rw [hrun, touches]
    split
    · rfl
    · exact h
  | isAuthRequestThrottled action ip identity =>
    have hne := keyOf_ne hsha action ip identity
    simp only [Call.run, Prod.map_snd, throttled_eq, touches]
    by_cases hip : keyOf rt action .ip ip identity = key
    · subst hip
      rw [if_pos rfl]
      split
      · refine CountsAs.deleteExpired ?_
        rw [Function.update_self, h.hit_eq]
        rfl
      · refine CountsAs.deleteExpired ?_
        rw [Function.update_of_ne hne, Function.update_self, h.hit_eq]
        rfl
    · rw [if_neg hip]
      by_cases hlimit : ipLimit action < (hit minute now (t (keyOf rt action .ip ip identity))).attempts
      · rw [if_pos hlimit, if_neg fun hid => Nat.not_lt.mpr hid.2 hlimit]
        refine CountsAs.deleteExpired ?_
        rw [Function.update_of_ne (Ne.symm hip)]
        exact h
      · rw [if_neg hlimit]
        refine CountsAs.deleteExpired ?_
        by_cases hid : keyOf rt action .identity ip identity = key
        · subst hid
          rw [if_pos ⟨rfl, Nat.not_lt.mp hlimit⟩, Function.update_self,
            Function.update_of_ne (Ne.symm hip), h.hit_eq]
          rfl
        · rw [if_neg fun h => hid h.1, Function.update_of_ne (Ne.symm hid),
            Function.update_of_ne (Ne.symm hip)]
          exact h

/-- A call that lets an attempt of a subject pass. -/
def Answered.passes (rt : Runtime) (action : Action) (s : Subject) (value : String) (a : Answered) :
    Bool :=
  match a.call with
  | .isAuthRequestThrottled action' ip identity =>
    action' = action && s.value rt ip identity = value && a.answer = some false
  | .clearLoginAttempts _ _ => false

/-- A call that lets an attempt pass hits the counter and leaves it within its limit. -/
theorem passes_run (hsha : rt.sha256.Injective) {action : Action} {s : Subject} {v : String}
    (h : CountsAs now (t (rateLimitKey rt action s.text v)) c) {call : Call}
    (hp : Answered.passes rt action s v ⟨now, call, (call.run rt now t).1, (call.run rt now t).2⟩ =
      true) :
    touches rt (rateLimitKey rt action s.text v) now t call = [.hit] ∧
      (hit minute now c).attempts ≤ limitOf action s ∧
      (call.run rt now t).2 (rateLimitKey rt action s.text v) = some (hit minute now c) := by
  cases call with
  | clearLoginAttempts ip identity => cases hp
  | isAuthRequestThrottled action' ip identity =>
    simp only [Answered.passes, Bool.and_eq_true, decide_eq_true_eq] at hp
    obtain ⟨⟨rfl, rfl⟩, hfalse⟩ := hp
    have hne := keyOf_ne hsha action' ip identity
    simp only [Call.run, Prod.map_snd, Prod.map_fst, throttled_eq, touches] at hfalse ⊢
    by_cases hlimit : ipLimit action' < (hit minute now (t (keyOf rt action' .ip ip identity))).attempts
    · rw [if_pos hlimit] at hfalse
      cases hfalse
    · rw [if_neg hlimit] at hfalse ⊢
      simp only [Option.some.injEq, decide_eq_false_iff_not, Nat.not_lt] at hfalse
      have hlive : ∀ c : Option Counter, live now (some (hit minute now c)) = some (hit minute now c) :=
        live_hit (by decide) now
      change CountsAs now (t (keyOf rt action' s ip identity)) c at h
      change (if keyOf rt action' .ip ip identity = keyOf rt action' s ip identity then _ else _) = _ ∧
        _ ∧ deleteExpired now _ (keyOf rt action' s ip identity) = _
      rw [deleteExpired_apply]
      cases s with
      | ip =>
        rw [if_pos rfl, Function.update_of_ne hne, Function.update_self, h.hit_eq, hlive]
        exact ⟨rfl, h.hit_eq ▸ Nat.not_lt.mp hlimit, rfl⟩
      | identity =>
        rw [Function.update_of_ne hne.symm, h.hit_eq] at hfalse
        rw [if_neg hne, if_pos ⟨rfl, Nat.not_lt.mp hlimit⟩, Function.update_self,
          Function.update_of_ne hne.symm, h.hit_eq, hlive]
        exact ⟨rfl, hfalse, rfl⟩

/-! ## What calls do to one counter -/

/-- What calls do happens when they are made. -/
theorem mem_ops {calls : List (ℕ × Call)} {op : ℕ × Op} (h : op ∈ ops rt key t calls) :
    ∃ call ∈ calls, call.1 = op.1 ∧ ∃ t', op.2 ∈ touches rt key call.1 t' call.2 := by
  induction calls generalizing t with
  | nil => cases h
  | cons call calls ih =>
    rcases List.mem_append.mp h with h | h
    · obtain ⟨o, ho, rfl⟩ := List.mem_map.mp h
      exact ⟨call, List.mem_cons_self .., rfl, t, ho⟩
    · obtain ⟨call', hmem, hop⟩ := ih h
      exact ⟨call', List.mem_cons_of_mem _ hmem, hop⟩

/-- What calls do is in the order of time when they are. -/
theorem pairwise_ops (rt : Runtime) (key : String) (t : RateLimits) {calls : List (ℕ × Call)}
    (h : calls.Pairwise (·.1 ≤ ·.1)) : (ops rt key t calls).Pairwise (·.1 ≤ ·.1) := by
  induction calls generalizing t with
  | nil => exact .nil
  | cons call calls ih =>
    rw [List.pairwise_cons] at h
    refine List.pairwise_append.mpr ⟨?_, ih _ h.2, fun op hop op' hop' => ?_⟩
    · exact List.pairwise_map.mpr (List.pairwise_of_forall fun _ _ => Nat.le_refl _)
    · obtain ⟨o, -, rfl⟩ := List.mem_map.mp hop
      obtain ⟨call', hmem, ht, -⟩ := mem_ops hop'
      exact ht ▸ h.1 call' hmem

/-- The attempts that pass are hits that leave the counter within its limit. -/
theorem passes_le_hits (hsha : rt.sha256.Injective) (action : Action) {s : Subject} {v : String}
    (p : ℕ → Option Counter → Bool) {calls : List (ℕ × Call)}
    (hcalls : calls.Pairwise (·.1 ≤ ·.1))
    (h : ∀ call ∈ calls.head?, CountsAs call.1 (t (rateLimitKey rt action s.text v)) c) :
    (trace rt t calls).countP (fun a => a.passes rt action s v &&
        p a.time (a.table (rateLimitKey rt action s.text v))) ≤
      (hits minute c (ops rt (rateLimitKey rt action s.text v) t calls)).countP
        fun h => h.2.attempts ≤ limitOf action s && p h.1 (some h.2) := by
  induction calls generalizing t c with
  | nil => exact Nat.zero_le _
  | cons call calls ih =>
    obtain ⟨now, call⟩ := call
    rw [List.pairwise_cons] at hcalls
    have hnow := h _ rfl
    have hrest := ih hcalls.2 (t := (call.run rt now t).2)
      (c := final minute c ((touches rt (rateLimitKey rt action s.text v) now t call).map (now, ·)))
      fun call' hmem => (countsAs_run hsha hnow call).later
        (hcalls.1 call' (List.mem_of_mem_head? hmem))
    rw [trace, ops, hits_append, List.countP_cons, List.countP_append, Nat.add_comm]
    refine Nat.add_le_add ?_ hrest
    split
    · rename_i hp
      simp only [Bool.and_eq_true] at hp
      obtain ⟨htouch, hlimit, hrow⟩ := passes_run hsha hnow hp.1
      rw [hrow] at hp
      simp [htouch, hits, hlimit, hp.2]
    · exact Nat.zero_le _

/-- An attempt that passes counts in a window that is open then. -/
theorem window_of_passes (hsha : rt.sha256.Injective) {action : Action} {s : Subject} {v : String}
    {calls : List (ℕ × Call)} {a : Answered} (ha : a ∈ trace rt t calls)
    (hp : a.passes rt action s v = true) :
    ∃ row, a.table (rateLimitKey rt action s.text v) = some row ∧ a.time < row.windowEnd := by
  induction calls generalizing t with
  | nil => cases ha
  | cons call calls ih =>
    obtain ⟨now, call⟩ := call
    rcases List.mem_cons.mp ha with rfl | ha
    · obtain ⟨-, -, hrow⟩ := passes_run hsha (c := t (rateLimitKey rt action s.text v)) rfl hp
      have hpos : 0 < minute := by decide
      have hlive := live_hit hpos now (t (rateLimitKey rt action s.text v))
      exact ⟨_, hrow, by simpa using (Option.filter_eq_some_iff.mp hlive).2⟩
    · exact ih ha

/-! ## Deletion -/

/-- `isAuthRequestThrottled` as it would be without the deletion of expired rows. -/
def throttledKeeping (rt : Runtime) (action : Action) (ipAddress identity : String) (now : ℕ)
    (t : RateLimits) : Bool × RateLimits :=
  let ipKey := rateLimitKey rt action "ip" ipAddress
  let identityKey := rateLimitKey rt action "identity" (normalizedIdentity rt identity)
  let (ipAttempts, t) := incrementCounter now ipKey t
  if ipLimit action < ipAttempts then (true, t)
  else
    let (identityAttempts, t) := incrementCounter now identityKey t
    (identityLimit action < identityAttempts, t)

/-- The answers of calls that delete nothing. -/
def answersKeeping (rt : Runtime) : RateLimits → List (ℕ × Call) → List (Option Bool)
  | _, [] => []
  | t, (now, .isAuthRequestThrottled action ip identity) :: calls =>
    some (throttledKeeping rt action ip identity now t).1 ::
      answersKeeping rt (throttledKeeping rt action ip identity now t).2 calls
  | t, (_, .clearLoginAttempts ip identity) :: calls =>
    none :: answersKeeping rt (clearLoginAttempts rt ip identity t) calls

/-- The rows of two tables count alike. -/
def Alike (now : ℕ) (t t' : RateLimits) : Prop := ∀ key, CountsAs now (t key) (t' key)

/-- Increments of rows that count alike. -/
theorem Alike.update {t' : RateLimits} (h : Alike now t t') (key : String) :
    Alike now (Function.update t key (some (hit minute now (t key))))
      (Function.update t' key (some (hit minute now (t' key)))) := by
  intro k
  by_cases hk : k = key
  · subst hk
    rw [Function.update_self, Function.update_self, (h k).hit_eq]
    rfl
  · rw [Function.update_of_ne hk, Function.update_of_ne hk]
    exact h k

theorem Alike.deleteExpired {t' : RateLimits} (h : Alike now t t') :
    Alike now (deleteExpired now t) t' := fun k => (h k).deleteExpired

/-- The deletion changes no answer. -/
theorem throttledKeeping_eq (rt : Runtime) {t' : RateLimits} (h : Alike now t t') (action : Action)
    (ip identity : String) :
    (isAuthRequestThrottled rt action ip identity now t).1 =
        (throttledKeeping rt action ip identity now t').1 ∧
      Alike now (isAuthRequestThrottled rt action ip identity now t).2
        (throttledKeeping rt action ip identity now t').2 := by
  simp only [isAuthRequestThrottled, throttledKeeping, incrementCounter, merged_eq_hit]
  have h₁ := h.update (rateLimitKey rt action "ip" ip)
  rw [(h _).hit_eq] at h₁ ⊢
  split
  · exact ⟨rfl, h₁.deleteExpired⟩
  · have h₂ := h₁.update (rateLimitKey rt action "identity" (normalizedIdentity rt identity))
    refine ⟨?_, h₂.deleteExpired⟩
    rw [(h₁ _).hit_eq]

/-- Answers do not depend on whether expired rows are deleted. -/
theorem answers_eq {calls : List (ℕ × Call)} (hcalls : calls.Pairwise (·.1 ≤ ·.1)) {t' : RateLimits}
    (h : ∀ call ∈ calls.head?, Alike call.1 t t') :
    (trace rt t calls).map (·.answer) = answersKeeping rt t' calls := by
  induction calls generalizing t t' with
  | nil => rfl
  | cons call calls ih =>
    obtain ⟨now, call⟩ := call
    rw [List.pairwise_cons] at hcalls
    have later : ∀ {t t' : RateLimits}, Alike now t t' →
        ∀ call ∈ calls.head?, Alike call.1 t t' := fun h call hmem key =>
      (h key).later (hcalls.1 call (List.mem_of_mem_head? hmem))
    have hnow := h _ rfl
    cases call with
    | isAuthRequestThrottled action ip identity =>
      obtain ⟨hanswer, htable⟩ := throttledKeeping_eq rt hnow action ip identity
      rw [trace, List.map_cons, answersKeeping, ← hanswer]
      exact congrArg _ (ih hcalls.2 (later htable))
    | clearLoginAttempts ip identity =>
      rw [trace, List.map_cons, answersKeeping]
      refine congrArg _ (ih hcalls.2 (later fun key => ?_))
      simp only [Call.run, clearLoginAttempts]
      split
      · rfl
      · exact hnow key

/-- Tables count like themselves. -/
theorem Alike.refl (now : ℕ) (t : RateLimits) : Alike now t t := fun _ => rfl

/-! ## Limits -/

/-- Within a minute at most twice the limit of a subject passes, and the limit once more for every time
that its attempts are cleared. -/
theorem passes_span (hsha : rt.sha256.Injective) (action : Action) (s : Subject) (v : String)
    (t : RateLimits) {calls : List (ℕ × Call)} (hclock : calls.Pairwise (·.1 ≤ ·.1)) (start : ℕ) :
    (trace rt t calls).countP
        (fun a => a.passes rt action s v && (start ≤ a.time && a.time < start + minute)) ≤
      limitOf action s * ((ops rt (rateLimitKey rt action s.text v) t calls).countP
        (fun op => op.2 = .clear ∧ start ≤ op.1 ∧ op.1 < start + minute) + 2) := by
  have hpasses := passes_le_hits (t := t) (s := s) (v := v)
    (c := t (rateLimitKey rt action s.text v)) hsha action
    (fun time _ => start ≤ time && time < start + minute) hclock fun _ _ => rfl
  have hspan := hits_span minute (limitOf action s) start
    (pairwise_ops rt (rateLimitKey rt action s.text v) t hclock)
    (t (rateLimitKey rt action s.text v))
  refine Nat.le_trans hpasses (Nat.le_trans (Nat.le_of_eq ?_) hspan)
  simp

/-- What calls do to the counter of an identity whose attempts they do not clear. -/
theorem ops_hit (hsha : rt.sha256.Injective) (action : Action) {v : String} {calls : List (ℕ × Call)}
    (hclear : ∀ call ∈ calls, ∀ ip other, call.2 = .clearLoginAttempts ip other →
      normalizedIdentity rt other ≠ v) :
    ∀ op ∈ ops rt (rateLimitKey rt action Subject.identity.text v) t calls, op.2 = .hit := by
  intro op hop
  obtain ⟨call, hmem, -, t', htouch⟩ := mem_ops hop
  cases hcall : call.2 with
  | isAuthRequestThrottled action' ip identity =>
    rw [hcall, touches] at htouch
    split_ifs at htouch <;> simp_all
  | clearLoginAttempts ip identity =>
    rw [hcall, touches] at htouch
    split_ifs at htouch with hkey
    · -- The key is neither the key of the address nor that of the other identity.
      simp only [List.mem_cons, List.not_mem_nil, or_false] at hkey
      rcases hkey with h | h
      · cases (rateLimitKey_inj hsha h).2.1
      · exact absurd (rateLimitKey_inj hsha h).2.2.symm (hclear call hmem ip identity hcall)
    · cases htouch

/-- Within one window of the counter of such an identity at most the limit passes. -/
theorem passes_window (hsha : rt.sha256.Injective) (action : Action) {v : String} (t : RateLimits)
    {calls : List (ℕ × Call)} (hclock : calls.Pairwise (·.1 ≤ ·.1))
    (hclear : ∀ call ∈ calls, ∀ ip other, call.2 = .clearLoginAttempts ip other →
      normalizedIdentity rt other ≠ v) (e : ℕ) :
    (trace rt t calls).countP (fun a => a.passes rt action .identity v &&
        (a.table (rateLimitKey rt action Subject.identity.text v)).any (·.windowEnd = e)) ≤
      identityLimit action := by
  have hpasses := passes_le_hits (t := t) (s := .identity) (v := v)
    (c := t (rateLimitKey rt action Subject.identity.text v)) hsha action
    (fun _ row => row.any (·.windowEnd = e)) hclock fun _ _ => rfl
  have hpos : 0 < minute := by decide
  have hwindow := hits_window (identityLimit action) hpos e
    (ops_hit (t := t) hsha action hclear) (t (rateLimitKey rt action Subject.identity.text v))
  refine Nat.le_trans hpasses (Nat.le_trans (Nat.le_of_eq ?_) (Nat.le_trans hwindow (room_le ..)))
  refine List.countP_congr fun h _ => ?_
  rw [Bool.and_eq_true, decide_eq_true_iff, decide_eq_true_iff]
  simp [limitOf]

/-- The calls that a login request makes. -/
def storeCalls (rt : Runtime) (now : ℕ) (t : RateLimits) (request : LoginRequest) : List Call :=
  match (store rt now t request).1, request.email with
  | .verified .loggedIn, some (.str email) =>
    [.isAuthRequestThrottled .login request.incomingIp email,
      .clearLoginAttempts request.incomingIp email]
  | .verified _, some (.str email) | .tooManyAttempts, some (.str email) =>
    [.isAuthRequestThrottled .login request.incomingIp email]
  | _, _ => []

/-- The calls that login requests make. -/
def loginCalls (rt : Runtime) : RateLimits → List (ℕ × LoginRequest) → List (ℕ × Call)
  | _, [] => []
  | t, (now, request) :: requests =>
    (storeCalls rt now t request).map (now, ·) ++ loginCalls rt (store rt now t request).2 requests

/-- How a request ends: it calls nothing, or it asks once and does not succeed, or it passes, succeeds
and clears the attempts. -/
theorem store_cases (rt : Runtime) (now : ℕ) (t : RateLimits) (request : LoginRequest) :
    (storeCalls rt now t request = [] ∧ store rt now t request = (.invalidForm, t)) ∨
      ∃ email, let asked := Call.isAuthRequestThrottled .login request.incomingIp email
        (storeCalls rt now t request = [asked] ∧
          (store rt now t request).2 = (asked.run rt now t).2 ∧
          (store rt now t request).1 ≠ .verified .loggedIn ∧
          ((∃ v, (store rt now t request).1 = .verified v) → (asked.run rt now t).1 = some false)) ∨
        (storeCalls rt now t request =
            [asked, .clearLoginAttempts request.incomingIp email] ∧
          store rt now t request = (.verified .loggedIn,
            clearLoginAttempts rt request.incomingIp email (asked.run rt now t).2) ∧
          (asked.run rt now t).1 = some false) := by
  unfold storeCalls
  generalize hout : store rt now t request = out
  unfold store at hout
  split at hout
  · rename_i email _ hemail _
    rw [hemail]
    split_ifs at hout
    · subst hout
      exact .inl ⟨rfl, rfl⟩
    · refine .inr ⟨email, ?_⟩
      simp only [Call.run]
      generalize isAuthRequestThrottled rt .login request.incomingIp email now t = r at hout ⊢
      obtain ⟨throttled, t'⟩ := r
      cases throttled with
      | true =>
        subst hout
        simp
      | false =>
        simp only at hout
        split at hout <;> subst hout <;> simp_all
  · subst hout
    exact .inl ⟨rfl, rfl⟩

/-- The table after a request is the table after its calls. -/
theorem tableAfter_store (rt : Runtime) (now : ℕ) (t : RateLimits) (request : LoginRequest) :
    tableAfter rt t ((storeCalls rt now t request).map (now, ·)) = (store rt now t request).2 := by
  rcases store_cases rt now t request with ⟨hcalls, hstore⟩ | ⟨email, ⟨hcalls, htable, -⟩ |
    ⟨hcalls, hstore, -⟩⟩
  · rw [hcalls, hstore]
    rfl
  · rw [hcalls, htable]
    rfl
  · rw [hcalls, hstore]
    rfl

theorem Login.passed_iff (l : Login) : l.passed = true ↔ ∃ v, l.outcome = .verified v := by
  unfold Login.passed
  split <;> simp_all

/-- What is recorded of a request. -/
def loginOf (rt : Runtime) (now : ℕ) (t : RateLimits) (request : LoginRequest) : Login :=
  ⟨now, request.incomingIp, (store rt now t request).1⟩

/-- A request that passes makes a call that passes. -/
theorem passes_store (rt : Runtime) (ip : String) (p : ℕ → Bool) (now : ℕ) (t : RateLimits)
    (request : LoginRequest) :
    [loginOf rt now t request].countP (fun l => l.incomingIp = ip && l.passed && p l.time) ≤
      (trace rt t ((storeCalls rt now t request).map (now, ·))).countP
        (fun a => a.passes rt .login .ip ip && p a.time) := by
  rw [List.countP_singleton]
  split
  · rename_i h
    simp only [Bool.and_eq_true, decide_eq_true_eq, Login.passed_iff] at h
    obtain ⟨⟨rfl, hv⟩, hp⟩ := h
    simp only [loginOf] at hv hp
    rcases store_cases rt now t request with ⟨-, hstore⟩ | ⟨email, ⟨hcalls, -, -, hpassed⟩ |
      ⟨hcalls, -, hpassed⟩⟩
    · rw [hstore] at hv
      obtain ⟨v, hv⟩ := hv
      cases hv
    · simp [hcalls, trace, Answered.passes, hpassed hv, Subject.value, hp, loginOf]
    · simp [hcalls, trace, Answered.passes, hpassed, Subject.value, hp, loginOf]
  · exact Nat.zero_le _

/-- Asking clears nothing. -/
theorem asked_clears (p : ℕ → Bool) (action : Action) (ip identity : String) :
    ((touches rt key now t (.isAuthRequestThrottled action ip identity)).map (now, ·)).countP
      (fun op => op.2 = .clear && p op.1) = 0 := by
  simp only [touches]
  split_ifs <;> rfl

/-- A request clears the attempts of its own address only, and only if it succeeds. -/
theorem clears_store (hsha : rt.sha256.Injective) (ip : String) (p : ℕ → Bool) (now : ℕ)
    (t : RateLimits) (request : LoginRequest) :
    (ops rt (rateLimitKey rt .login Subject.ip.text ip) t
        ((storeCalls rt now t request).map (now, ·))).countP (fun op => op.2 = .clear && p op.1) ≤
      [loginOf rt now t request].countP
        (fun l => l.incomingIp = ip && l.outcome = .verified .loggedIn && p l.time) := by
  rcases store_cases rt now t request with ⟨hcalls, -⟩ | ⟨email, ⟨hcalls, -⟩ | ⟨hcalls, hstore, -⟩⟩
  · rw [hcalls]
    exact Nat.zero_le _
  · rw [hcalls, List.map_singleton, ops, ops, List.append_nil, asked_clears]
    exact Nat.zero_le _
  · rw [hcalls, List.map_cons, List.map_singleton, ops, ops, ops, List.append_nil,
      List.countP_append, asked_clears, Nat.zero_add, touches, List.countP_singleton]
    split_ifs with hkey hlogin
    · exact List.countP_le_length
    · -- A request that clears the attempts of the address comes from it.
      simp only [List.mem_cons, List.not_mem_nil, or_false] at hkey
      have hip : request.incomingIp = ip := by
        rcases hkey with h | h
        · exact (rateLimitKey_inj hsha h).2.2.symm
        · cases (rateLimitKey_inj hsha h).2.1
      have hp : p now = false := by simpa [loginOf, hstore, hip] using hlogin
      simp [hp]
    · exact Nat.zero_le _
    · exact Nat.zero_le _

/-- The calls that login requests make are in the order of time when the requests are. -/
theorem pairwise_loginCalls (rt : Runtime) (t : RateLimits) {requests : List (ℕ × LoginRequest)}
    (hclock : requests.Pairwise (·.1 ≤ ·.1)) : (loginCalls rt t requests).Pairwise (·.1 ≤ ·.1) := by
  have hmem : ∀ (requests : List (ℕ × LoginRequest)) (t : RateLimits),
      ∀ call ∈ loginCalls rt t requests, ∃ request ∈ requests, request.1 = call.1 := by
    intro requests
    induction requests with
    | nil => exact fun t call h => nomatch h
    | cons request requests ih =>
      intro t call h
      rcases List.mem_append.mp h with h | h
      · obtain ⟨c, -, rfl⟩ := List.mem_map.mp h
        exact ⟨request, List.mem_cons_self .., rfl⟩
      · obtain ⟨request', hrequest', htime⟩ := ih _ call h
        exact ⟨request', List.mem_cons_of_mem _ hrequest', htime⟩
  induction requests generalizing t with
  | nil => exact .nil
  | cons request requests ih =>
    rw [List.pairwise_cons] at hclock
    refine List.pairwise_append.mpr ⟨?_, ih _ hclock.2, fun call hcall call' hcall' => ?_⟩
    · exact List.pairwise_map.mpr (List.pairwise_of_forall fun _ _ => Nat.le_refl _)
    · obtain ⟨c, -, rfl⟩ := List.mem_map.mp hcall
      obtain ⟨request', hrequest', htime⟩ := hmem _ _ call' hcall'
      exact htime ▸ hclock.1 request' hrequest'

/-- One list of calls after another. -/
theorem trace_append (t : RateLimits) (calls calls' : List (ℕ × Call)) :
    trace rt t (calls ++ calls') = trace rt t calls ++ trace rt (tableAfter rt t calls) calls' := by
  induction calls generalizing t with
  | nil => rfl
  | cons call calls ih => exact congrArg _ (ih _)

theorem ops_append (t : RateLimits) (calls calls' : List (ℕ × Call)) :
    ops rt key t (calls ++ calls') =
      ops rt key t calls ++ ops rt key (tableAfter rt t calls) calls' := by
  induction calls generalizing t with
  | nil => rfl
  | cons call calls ih =>
    rw [List.cons_append, ops, ops, ih, List.append_assoc]
    rfl

/-- The requests of an address that pass make calls that pass, and only those that succeed clear its
attempts. -/
theorem logins_calls (hsha : rt.sha256.Injective) (ip : String) (p : ℕ → Bool) (t : RateLimits)
    (requests : List (ℕ × LoginRequest)) :
    (logins rt t requests).countP (fun l => l.incomingIp = ip && l.passed && p l.time) ≤
        (trace rt t (loginCalls rt t requests)).countP
          (fun a => a.passes rt .login .ip ip && p a.time) ∧
      (ops rt (rateLimitKey rt .login Subject.ip.text ip) t (loginCalls rt t requests)).countP
          (fun op => op.2 = .clear && p op.1) ≤
        (logins rt t requests).countP
          (fun l => l.incomingIp = ip && l.outcome = .verified .loggedIn && p l.time) := by
  induction requests generalizing t with
  | nil => exact ⟨Nat.zero_le _, Nat.zero_le _⟩
  | cons request requests ih =>
    obtain ⟨now, request⟩ := request
    have hpasses := passes_store rt ip p now t request
    have hclears := clears_store hsha ip p now t request
    obtain ⟨ihp, ihc⟩ := ih (store rt now t request).2
    have hlogins : logins rt t ((now, request) :: requests) =
        [loginOf rt now t request] ++ logins rt (store rt now t request).2 requests := rfl
    rw [hlogins, loginCalls, trace_append, ops_append, tableAfter_store, List.countP_append,
      List.countP_append, List.countP_append, List.countP_append]
    exact ⟨Nat.add_le_add hpasses ihp, Nat.add_le_add hclears ihc⟩

/-- A request that passes is refused or succeeds. -/
theorem countP_passed (q : Login → Bool) (ls : List Login) :
    ls.countP (fun l => q l && l.refused) + ls.countP (fun l => q l && l.outcome = .verified .loggedIn) =
      ls.countP (fun l => q l && l.passed) := by
  induction ls with
  | nil => rfl
  | cons l ls ih =>
    have hone : (if q l && l.refused then 1 else 0) +
        (if q l && l.outcome = .verified .loggedIn then 1 else 0) =
          if q l && l.passed then 1 else 0 := by
      rcases l with ⟨time, ip, _ | _ | v⟩
      · simp [Login.refused, Login.passed]
      · simp [Login.refused, Login.passed]
      · by_cases hv : v = .loggedIn <;> cases q _ <;> simp [Login.refused, Login.passed, hv]
    rw [List.countP_cons, List.countP_cons, List.countP_cons]
    omega

/-- Wrong passwords for twenty-nine identities and then the right one for another, three times over. -/
def spray : List (ℕ × LoginRequest) :=
  (List.replicate 3 (List.range 30)).flatten.map fun n =>
    (0, { incomingIp := "ip", email := some (.str (String.ofList (List.replicate (n + 1) 'e')))
          password := some (.str "guess")
          verify := fun email _ => if Js.length email = 30 then .loggedIn else .invalidCredentials })

end Reeva.Auth
