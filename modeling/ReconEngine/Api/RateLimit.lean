import ReconEngine.Api.Cache
import Mathlib

/-!
# The rate limit

Requests to `/api/` are counted per scope, identity and minute of the wall clock. The counter of a
minute is a key of the cache; in the process-local cache it expires by the monotonic clock, sixty
seconds after its first increment, and counters that have expired are dropped when there are too
many.

**The law** (`limit_exact`): of the requests of one minute, scope and identity exactly the first
ones up to the limit pass, whatever other requests come between and however often counters are
dropped, provided that each request is counted within the minute that it read. **Twice the limit**
(`passed_span`) passes at most in any sixty seconds, under the same condition and with the minutes
in order.

**What it does not establish.** A request that is counted in a later minute than the one it read, or
by a process whose counters are its own, may pass beyond the limit; and so do all requests while the
cache is down, as the count is then 0.
-/

set_option autoImplicit false

namespace Recon

open Store (Dict)

/-! ## Requests -/

inductive LimitScope where
  | upload
  | api
deriving DecidableEq, Repr

def LimitScope.text : LimitScope → String
  | .upload => "upload"
  | .api => "api"

/-- What the limiter looks at of a request, and the clocks that it reads: the wall clock for the
minute and the monotonic one for the counter. -/
structure ApiRequest where
  path : String
  apiKey : Option String
  client : Option String
  wall : ℚ
  mono : ℚ
deriving DecidableEq

/-- The environment of the limiter: the limits of both scopes, and the digest of a key. -/
structure RateLimiter where
  uploadPerMinute : Int := 10
  perMinute : Int := 120
  sha256Hex : String → String

def windowSeconds : ℚ := 60

def uploadPaths : List String := ["/api/v1/files/upload", "/api/v1/upload"]

namespace ApiRequest

variable (req : ApiRequest)

def isApi : Bool := "/api/".toList.isPrefixOf req.path.toList

def scope : LimitScope := if req.path ∈ uploadPaths then .upload else .api

/-- The minute of the wall clock. -/
def window : Int := ⌊req.wall / windowSeconds⌋

def retryAfter : Int := max 1 ⌊(req.window + 1) * windowSeconds - req.wall⌋

end ApiRequest

/-- The key of a counter. -/
def counterKey (scope : LimitScope) (identity : String) (window : Int) : String :=
  "rl:" ++ scope.text ++ ":" ++ identity ++ ":" ++ toString window

inductive Verdict where
  /-- Not a request to `/api/`. -/
  | exempt
  /-- The request is served, with the limit and what remains of it in its headers. -/
  | allowed (headers : Option (Int × Int))
  | limited (limit retryAfter : Int)
deriving DecidableEq, Repr

def Verdict.passes : Verdict → Bool
  | .limited _ _ => false
  | _ => true

namespace RateLimiter

variable (limiter : RateLimiter)

/-- `_limit_for`. -/
def limitFor : LimitScope → Int
  | .upload => limiter.uploadPerMinute
  | .api => limiter.perMinute

/-- `_identity`. -/
def identity (req : ApiRequest) : String :=
  match req.apiKey.filter (· ≠ "") with
  | some key => "key:" ++ String.ofList ((limiter.sha256Hex key).toList.take 16)
  | none => "ip:" ++ req.client.getD "unknown"

def keyOf (req : ApiRequest) : String := counterKey req.scope (limiter.identity req) req.window

/-- What becomes of a request with the count that the cache gave. -/
def verdict (req : ApiRequest) (count : Nat) : Verdict :=
  let limit := limiter.limitFor req.scope
  if 0 < limit ∧ limit < count then .limited limit req.retryAfter
  else .allowed (if count = 0 then none else some (limit, max 0 (limit - count)))

/-- `rate_limit_middleware`, with the process-local cache. -/
def serve (cache : MemoryCache) (req : ApiRequest) : Verdict × MemoryCache :=
  if req.isApi = true then
    let (count, next) := cache.incrWindow (limiter.keyOf req) windowSeconds req.mono
    (limiter.verdict req count, next)
  else (.exempt, cache)

/-- The cache after some requests. -/
def cacheAfter (requests : List ApiRequest) : MemoryCache :=
  requests.foldl (fun cache req => (limiter.serve cache req).2) {}

/-- The verdict on a request that comes after others. -/
def verdictAfter (earlier : List ApiRequest) (req : ApiRequest) : Verdict :=
  (limiter.serve (limiter.cacheAfter earlier) req).1

/-- The request is counted for the minute, the scope and the identity. -/
def CountedAs (scope : LimitScope) (identity : String) (window : Int) (req : ApiRequest) : Prop :=
  req.isApi = true ∧ req.scope = scope ∧ limiter.identity req = identity ∧ req.window = window

instance (scope : LimitScope) (identity : String) (window : Int) (req : ApiRequest) :
    Decidable (limiter.CountedAs scope identity window req) :=
  inferInstanceAs (Decidable (_ ∧ _ ∧ _ ∧ _))

/-- A request of a run: the cache after it, and the requests that have passed. -/
def runStep (run : MemoryCache × List ApiRequest) (req : ApiRequest) :
    MemoryCache × List ApiRequest :=
  let (verdict, next) := limiter.serve run.1 req
  (next, run.2 ++ if verdict.passes then [req] else [])

/-- The requests of a run that were not limited. -/
def passed (requests : List ApiRequest) : List ApiRequest :=
  (requests.foldl limiter.runStep ({}, [])).2

def countedAs (scope : LimitScope) (identity : String) (window : Int)
    (requests : List ApiRequest) : List ApiRequest :=
  requests.filter fun req => limiter.CountedAs scope identity window req

end RateLimiter

/-- The monotonic clock is `offset` behind the wall clock, and the request is counted within the
minute that it read. -/
def ApiRequest.Punctual (offset : ℚ) (req : ApiRequest) : Prop :=
  0 ≤ req.mono ∧ req.window * windowSeconds ≤ req.mono + offset ∧
    req.mono + offset < (req.window + 1) * windowSeconds

/-! ## Keys -/

/-- What stands before and after the first of two characters can be told. -/
theorem append_cons_inj {c : Char} {a b s t : List Char} (ha : c ∉ a) (hb : c ∉ b)
    (h : a ++ c :: s = b ++ c :: t) : a = b ∧ s = t := by
  have htake : ∀ {x y : List Char}, c ∉ x → (x ++ c :: y).takeWhile (· ≠ c) = x := by
    intro x y hx
    rw [List.takeWhile_append_of_pos]
    · simp
    · intro d hd
      have hne : d ≠ c := fun heq => hx (heq ▸ hd)
      simpa using hne
  have hsame : a = b := by rw [← htake ha (y := s), h, htake hb]
  subst hsame
  exact ⟨rfl, List.tail_eq_of_cons_eq (List.append_cancel_left h)⟩

/-- Minutes are written without a colon, so the parts of a key are told apart. -/
theorem colon_not_mem_int (n : Int) : ':' ∉ (toString n).toList := by
  have hnat : ∀ m : Nat, ':' ∉ m.repr.toList := by
    intro m h
    rw [Nat.repr_eq_ofList_toDigits, String.toList_ofList] at h
    exact absurd (Nat.isDigit_of_mem_toDigits (by decide) (by decide) h) (by decide)
  rw [Int.toString_eq_repr, Int.repr_eq_if]
  by_cases h : 0 ≤ n
  · rw [if_pos h]
    exact hnat _
  · rw [if_neg h, String.toList_append, List.mem_append]
    intro hor
    exact hor.elim (by decide) (hnat _)

theorem colon_not_mem_scope (scope : LimitScope) : ':' ∉ scope.text.toList := by
  cases scope <;> decide

/-- The identity stands between the first colon and the last one. -/
theorem counterKey_toList (scope : LimitScope) (identity : String) (window : Int) :
    (counterKey scope identity window).toList =
      ['r', 'l', ':'] ++ (scope.text.toList ++ ':' :: (identity.toList ++
        ':' :: (toString window).toList)) := by
  unfold counterKey
  simp only [String.toList_append, List.append_assoc]
  rfl

/-- Different scopes, identities or minutes have different counters. -/
theorem counterKey_inj {scope scope' : LimitScope} {identity identity' : String}
    {window window' : Int} (h : counterKey scope identity window = counterKey scope' identity' window') :
    scope = scope' ∧ identity = identity' ∧ window = window' := by
  have htext : ∀ {a b : LimitScope}, a.text.toList = b.text.toList → a = b := by
    intro a b hab
    cases a <;> cases b <;> first | rfl | exact absurd hab (by decide)
  have hlist := congrArg String.toList h
  rw [counterKey_toList, counterKey_toList] at hlist
  obtain ⟨hscope, hrest⟩ := append_cons_inj (colon_not_mem_scope scope) (colon_not_mem_scope scope')
    (List.append_cancel_left hlist)
  -- Read backwards, the minute comes before the first colon.
  have hback := congrArg List.reverse hrest
  simp only [List.reverse_append, List.reverse_cons, List.append_assoc, List.singleton_append]
    at hback
  obtain ⟨hwindow, hidentity⟩ := append_cons_inj
    (mt List.mem_reverse.mp (colon_not_mem_int window))
    (mt List.mem_reverse.mp (colon_not_mem_int window')) hback
  have hminute : toString window = toString window' :=
    String.toList_injective (List.reverse_injective hwindow)
  rw [Int.toString_eq_repr, Int.toString_eq_repr] at hminute
  exact ⟨htext hscope, String.toList_injective (List.reverse_injective hidentity),
    Int.repr_injective hminute⟩

/-! ## Counters -/

namespace MemoryCache

variable {cache : MemoryCache} {key key' : String} {ttl now expires : ℚ} {count : Nat}

/-- Dropping the expired counters keeps one that has not expired, and makes none up. -/
theorem kept_get? (counters : Dict String (ℚ × Nat)) (key : String) (now : ℚ) :
    (if maxCounters < counters.size then counters.filter fun _ counter => now < counter.1
      else counters).get? key = counters.get? key ∨
    ((if maxCounters < counters.size then counters.filter fun _ counter => now < counter.1
      else counters).get? key = none ∧
        ∃ counter, counters.get? key = some counter ∧ counter.1 ≤ now) := by
  by_cases hmany : maxCounters < counters.size
  · rw [if_pos hmany, Dict.get?_filter]
    cases hfound : counters.get? key with
    | none => exact .inl rfl
    | some counter =>
      by_cases hlive : now < counter.1
      · left
        simp [Option.filter, hlive]
      · right
        constructor
        · simp [Option.filter, hlive]
        · exact ⟨counter, rfl, not_lt.mp hlive⟩
  · rw [if_neg hmany]
    exact .inl rfl

/-- Another key's increment makes no counter. -/
theorem incrWindow_absent (hne : key ≠ key') (h : cache.counters.get? key = none) :
    (cache.incrWindow key' ttl now).2.counters.get? key = none := by
  unfold incrWindow
  dsimp only
  rcases kept_get? _ key now with hsame | ⟨hnone, -⟩
  · rw [hsame, Dict.get?_put_ne _ _ hne, h]
  · exact hnone

/-- Another key's increment keeps a counter that has not expired. -/
theorem incrWindow_other (hne : key ≠ key') (h : cache.counters.get? key = some (expires, count))
    (hlive : now < expires) :
    (cache.incrWindow key' ttl now).2.counters.get? key = some (expires, count) := by
  unfold incrWindow
  dsimp only
  rcases kept_get? _ key now with hsame | ⟨-, counter, hfound, hexpired⟩
  · rw [hsame, Dict.get?_put_ne _ _ hne, h]
  · rw [Dict.get?_put_ne _ _ hne, h] at hfound
    obtain rfl := Option.some.inj hfound
    exact absurd hlive (not_lt.mpr hexpired)

/-- The first increment of a key starts its counter. -/
theorem incrWindow_first (h : cache.counters.get? key = none) (hnow : 0 ≤ now) (httl : 0 < ttl) :
    (cache.incrWindow key ttl now).1 = 1 ∧
      (cache.incrWindow key ttl now).2.counters.get? key = some (now + ttl, 1) := by
  unfold incrWindow
  rw [h]
  dsimp only [Option.getD_none]
  rw [if_pos hnow]
  constructor
  · rfl
  · rcases kept_get? _ key now with hsame | ⟨-, counter, hfound, hexpired⟩
    · rw [hsame, Dict.get?_put_self]
    · rw [Dict.get?_put_self] at hfound
      obtain rfl := Option.some.inj hfound
      dsimp only at hexpired
      linarith

/-- An increment of a counter that has not expired adds one to it. -/
theorem incrWindow_again (h : cache.counters.get? key = some (expires, count))
    (hlive : now < expires) :
    (cache.incrWindow key ttl now).1 = count + 1 ∧
      (cache.incrWindow key ttl now).2.counters.get? key = some (expires, count + 1) := by
  unfold incrWindow
  rw [h]
  dsimp only [Option.getD_some]
  rw [if_neg (not_le.mpr hlive)]
  constructor
  · rfl
  · rcases kept_get? _ key now with hsame | ⟨-, counter, hfound, hexpired⟩
    · rw [hsame, Dict.get?_put_self]
    · rw [Dict.get?_put_self] at hfound
      obtain rfl := Option.some.inj hfound
      exact absurd hlive (not_lt.mpr hexpired)

end MemoryCache

/-! ## Requests in any order -/

namespace RateLimiter

variable {limiter : RateLimiter} {offset : ℚ} {scope : LimitScope} {identity : String}
  {window : Int}

/-- The counters after one more request. -/
theorem cacheAfter_snoc (earlier : List ApiRequest) (req : ApiRequest) :
    limiter.cacheAfter (earlier ++ [req]) = (limiter.serve (limiter.cacheAfter earlier) req).2 := by
  unfold cacheAfter
  rw [List.foldl_append]
  rfl

/-- What has been counted under one key after one more request. -/
theorem countedAs_snoc (earlier : List ApiRequest) (req : ApiRequest) :
    limiter.countedAs scope identity window (earlier ++ [req]) =
      limiter.countedAs scope identity window earlier ++
        if limiter.CountedAs scope identity window req then [req] else [] := by
  unfold countedAs
  rw [List.filter_append]
  by_cases h : limiter.CountedAs scope identity window req <;> simp [h]

/-- The counter of a scope, identity and minute is the number of requests counted for them, and
does not expire before the minute is over. -/
def Counts (limiter : RateLimiter) (offset : ℚ) (scope : LimitScope) (identity : String)
    (window : Int) (earlier : List ApiRequest) : Prop :=
  match (limiter.countedAs scope identity window earlier).length with
  | 0 => (limiter.cacheAfter earlier).counters.get? (counterKey scope identity window) = none
  | n + 1 => ∃ expires,
      (limiter.cacheAfter earlier).counters.get? (counterKey scope identity window) =
        some (expires, n + 1) ∧
      (window + 1) * windowSeconds ≤ expires + offset

/-- A request of the minute finds the number of those before it, plus one. -/
theorem incrWindow_counts {earlier : List ApiRequest} {now : ℚ}
    (h : limiter.Counts offset scope identity window earlier) (hnow : 0 ≤ now)
    (hfrom : window * windowSeconds ≤ now + offset)
    (hto : now + offset < (window + 1) * windowSeconds) :
    ((limiter.cacheAfter earlier).incrWindow (counterKey scope identity window) windowSeconds
        now).1 = (limiter.countedAs scope identity window earlier).length + 1 ∧
      ∃ expires,
        ((limiter.cacheAfter earlier).incrWindow (counterKey scope identity window) windowSeconds
            now).2.counters.get? (counterKey scope identity window) =
          some (expires, (limiter.countedAs scope identity window earlier).length + 1) ∧
        (window + 1) * windowSeconds ≤ expires + offset := by
  have hsixty : (0 : ℚ) < windowSeconds := by norm_num [windowSeconds]
  unfold Counts at h
  cases hlength : (limiter.countedAs scope identity window earlier).length with
  | zero =>
    rw [hlength] at h
    obtain ⟨hcount, hentry⟩ := MemoryCache.incrWindow_first h hnow hsixty
    constructor
    · exact hcount
    · exact ⟨_, hentry, by linarith⟩
  | succ n =>
    rw [hlength] at h
    obtain ⟨expires, hentry, hlate⟩ := h
    have hlive : now < expires := by linarith
    obtain ⟨hcount, hnext⟩ := @MemoryCache.incrWindow_again _ _ windowSeconds _ _ _ hentry hlive
    constructor
    · exact hcount
    · exact ⟨expires, hnext, hlate⟩

/-- Every request keeps the counters of its own minute and of later ones right. -/
theorem counts_snoc {earlier : List ApiRequest} {req : ApiRequest}
    (h : limiter.Counts offset scope identity window earlier) (hreq : req.Punctual offset)
    (horder : req.window ≤ window) :
    limiter.Counts offset scope identity window (earlier ++ [req]) := by
  obtain ⟨hnow, hfrom, hto⟩ := hreq
  by_cases hcounted : limiter.CountedAs scope identity window req
  · obtain ⟨hapi, rfl, rfl, rfl⟩ := id hcounted
    obtain ⟨-, expires, hentry, hlate⟩ := incrWindow_counts h hnow hfrom hto
    unfold Counts
    rw [countedAs_snoc, if_pos hcounted, List.length_append, List.length_singleton,
      cacheAfter_snoc]
    unfold serve
    rw [if_pos hapi]
    exact ⟨expires, hentry, hlate⟩
  · unfold Counts at h ⊢
    rw [countedAs_snoc, if_neg hcounted, List.append_nil, cacheAfter_snoc]
    unfold serve
    by_cases hapi : req.isApi = true
    · have hne : counterKey scope identity window ≠ limiter.keyOf req := by
        intro heq
        obtain ⟨hscope, hidentity, hwindow⟩ := counterKey_inj heq
        exact hcounted ⟨hapi, hscope.symm, hidentity.symm, hwindow.symm⟩
      rw [if_pos hapi]
      cases hlength : (limiter.countedAs scope identity window earlier).length with
      | zero =>
        rw [hlength] at h
        exact MemoryCache.incrWindow_absent hne h
      | succ n =>
        rw [hlength] at h
        obtain ⟨expires, hentry, hlate⟩ := h
        -- The request comes before the minute is over, when the counter still stands.
        have hminute : ((req.window : ℚ) + 1) * windowSeconds ≤ (window + 1) * windowSeconds := by
          have hcast : (req.window : ℚ) ≤ window := by exact_mod_cast horder
          unfold windowSeconds
          linarith
        exact ⟨expires, MemoryCache.incrWindow_other hne hentry (by linarith), hlate⟩
    · rw [if_neg hapi]
      exact h

/-- The counter of a minute counts its requests, as long as each was counted within it. -/
theorem counts_after {earlier : List ApiRequest} (hpunctual : ∀ r ∈ earlier, r.Punctual offset)
    (horder : ∀ r ∈ earlier, r.window ≤ window) :
    limiter.Counts offset scope identity window earlier := by
  induction earlier using List.reverseRecOn with
  | nil => rfl
  | append_singleton earlier req ih =>
    exact counts_snoc
      (ih (fun r hr => hpunctual r (List.mem_append_left _ hr))
        fun r hr => horder r (List.mem_append_left _ hr))
      (hpunctual req (List.mem_append_right _ (List.mem_singleton_self req)))
      (horder req (List.mem_append_right _ (List.mem_singleton_self req)))

/-! ## The law -/

/-- **The law of the limit.** After any requests whose minutes are not later, a request is limited
exactly when its scope has a limit and as many requests of its scope, identity and minute came
before it; otherwise it is told what then remains. -/
theorem limit_exact (limiter : RateLimiter) {offset : ℚ} {earlier : List ApiRequest}
    {req : ApiRequest} (hpunctual : ∀ r ∈ earlier, r.Punctual offset)
    (horder : ∀ r ∈ earlier, r.window ≤ req.window) (hreq : req.Punctual offset)
    (hapi : req.isApi = true) :
    let before := (limiter.countedAs req.scope (limiter.identity req) req.window earlier).length
    let limit := limiter.limitFor req.scope
    limiter.verdictAfter earlier req =
      if 0 < limit ∧ limit ≤ before then .limited limit req.retryAfter
      else .allowed (some (limit, max 0 (limit - before - 1))) := by
  intro before limit
  obtain ⟨hnow, hfrom, hto⟩ := hreq
  have hcounts : limiter.Counts offset req.scope (limiter.identity req) req.window earlier :=
    counts_after hpunctual horder
  have hcount := (incrWindow_counts hcounts hnow hfrom hto).1
  unfold verdictAfter serve
  rw [if_pos hapi]
  change limiter.verdict req _ = _
  unfold keyOf
  rw [hcount]
  unfold verdict
  have hiff : (0 < limit ∧ limit < ((before + 1 : Nat) : Int)) ↔ (0 < limit ∧ limit ≤ before) := by
    push_cast
    omega
  by_cases hlimited : 0 < limit ∧ limit ≤ before
  · rw [if_pos hlimited]
    exact if_pos (hiff.mpr hlimited)
  · rw [if_neg hlimited]
    show ite _ _ _ = _
    rw [if_neg (mt hiff.mp hlimited), if_neg (Nat.succ_ne_zero _)]
    push_cast
    rw [← sub_sub]

def onePerMinute : RateLimiter where
  uploadPerMinute := 1
  perMinute := 1
  sha256Hex := id

/-- A request to the API in the second minute, some seconds after its middle. -/
def runsRequest (second : ℚ) : ApiRequest where
  path := "/api/v1/runs"
  apiKey := none
  client := some "10.0.0.1"
  wall := 90 + second
  mono := 30 + second

theorem runsRequest_window {second : ℚ} (h : 0 ≤ second) (hlt : second < 30) :
    (runsRequest second).window = 1 := by
  unfold runsRequest ApiRequest.window windowSeconds
  rw [Int.floor_eq_iff]
  push_cast
  constructor <;> linarith

theorem runsRequest_punctual {second : ℚ} (h : 0 ≤ second) (hlt : second < 30) :
    (runsRequest second).Punctual 60 := by
  unfold ApiRequest.Punctual
  rw [runsRequest_window h hlt]
  unfold runsRequest windowSeconds
  push_cast
  constructor
  · linarith
  · constructor <;> linarith

theorem limit_exact_second :
    (onePerMinute.verdictAfter [runsRequest 0] (runsRequest 1)).passes = false := by
  have hfirst := @runsRequest_window 0 (by norm_num) (by norm_num)
  have hsecond := @runsRequest_window 1 (by norm_num) (by norm_num)
  have hverdict := @limit_exact onePerMinute 60 [runsRequest 0] (runsRequest 1)
    (by
      intro r hr
      rw [List.mem_singleton.mp hr]
      exact runsRequest_punctual (by norm_num) (by norm_num))
    (by
      intro r hr
      rw [List.mem_singleton.mp hr, hfirst, hsecond])
    (runsRequest_punctual (by norm_num) (by norm_num)) (by decide)
  have hcounted : onePerMinute.CountedAs (runsRequest 1).scope
      (onePerMinute.identity (runsRequest 1)) (runsRequest 1).window (runsRequest 0) := by
    rw [hsecond]
    exact ⟨by decide, by decide, by decide, hfirst⟩
  dsimp only at hverdict
  rw [hverdict]
  unfold countedAs
  rw [List.filter_cons_of_pos (by simpa using hcounted)]
  decide

/-! ## Whole runs -/

/-- What has passed after one more request. -/
theorem passed_snoc (earlier : List ApiRequest) (req : ApiRequest) :
    limiter.passed (earlier ++ [req]) =
      limiter.passed earlier ++ if (limiter.verdictAfter earlier req).passes then [req] else [] := by
  -- The run carries the cache of the requests so far.
  have hcache : (earlier.foldl limiter.runStep ({}, [])).1 = limiter.cacheAfter earlier := by
    induction earlier using List.reverseRecOn with
    | nil => rfl
    | append_singleton earlier r ih =>
      rw [List.foldl_append, cacheAfter_snoc, ← ih]
      rfl
  unfold passed verdictAfter
  rw [List.foldl_append, ← hcache]
  rfl

/-- A run whose requests are counted within their minutes, and minute after minute. -/
structure Timely (offset : ℚ) (requests : List ApiRequest) : Prop where
  punctual : ∀ r ∈ requests, r.Punctual offset
  ordered : requests.Pairwise fun r r' => r.window ≤ r'.window

/-- Of the requests of a minute, scope and identity exactly as many pass as the limit allows. -/
theorem passed_minute {requests : List ApiRequest} (htimely : Timely offset requests)
    (hlimit : 0 < limiter.limitFor scope) (identity : String) (window : Int) :
    ((limiter.countedAs scope identity window (limiter.passed requests)).length : Int) =
      min (limiter.limitFor scope) (limiter.countedAs scope identity window requests).length := by
  induction requests using List.reverseRecOn with
  | nil => exact (min_eq_right hlimit.le).symm
  | append_singleton earlier req ih =>
    obtain ⟨hpunctual, hordered⟩ := htimely
    rw [List.pairwise_append] at hordered
    obtain ⟨hearlier, -, hlast⟩ := hordered
    have hbefore : ∀ r ∈ earlier, r.Punctual offset := fun r hr =>
      hpunctual r (List.mem_append_left _ hr)
    have horder : ∀ r ∈ earlier, r.window ≤ req.window := fun r hr =>
      hlast r hr req (List.mem_singleton_self req)
    have hreq := hpunctual req (List.mem_append_right _ (List.mem_singleton_self req))
    have ih := ih ⟨hbefore, hearlier⟩
    rw [passed_snoc, countedAs_snoc]
    by_cases hcounted : limiter.CountedAs scope identity window req
    · obtain ⟨hapi, rfl, rfl, rfl⟩ := id hcounted
      have hverdict := limit_exact limiter hbefore horder hreq hapi
      dsimp only at hverdict
      rw [hverdict, if_pos hcounted, List.length_append, List.length_singleton]
      by_cases hlimited : 0 < limiter.limitFor req.scope ∧ limiter.limitFor req.scope ≤
          (limiter.countedAs req.scope (limiter.identity req) req.window earlier).length
      · rw [if_pos hlimited]
        simp only [Verdict.passes, Bool.false_eq_true, if_false, List.append_nil]
        rw [ih]
        push_cast
        omega
      · rw [if_neg hlimited]
        simp only [Verdict.passes, if_true]
        rw [countedAs_snoc, if_pos hcounted, List.length_append, List.length_singleton]
        push_cast
        omega
    · rw [if_neg hcounted, List.append_nil, ← ih]
      by_cases hpasses : (limiter.verdictAfter earlier req).passes = true
      · rw [if_pos hpasses, countedAs_snoc, if_neg hcounted, List.append_nil]
      · rw [if_neg hpasses, List.append_nil]

theorem length_filter_le_add {α : Type} (l : List α) (p q r : α → Bool)
    (h : ∀ a, p a = true → q a = true ∨ r a = true) :
    (l.filter p).length ≤ (l.filter q).length + (l.filter r).length := by
  induction l with
  | nil => exact Nat.le_refl 0
  | cons a l ih =>
    have ha := h a
    simp only [List.filter_cons]
    grind

/-- **Twice the limit.** Of requests that are each counted in the minute that they read, these minutes
in order, no more than twice the limit of a scope pass for one identity within sixty seconds of the
wall clock. -/
theorem passed_span (limiter : RateLimiter) {offset : ℚ} {requests : List ApiRequest}
    (htimely : Timely offset requests) {scope : LimitScope}
    (hlimit : 0 < limiter.limitFor scope) (identity : String) (start : ℚ) :
    (((limiter.passed requests).filter fun req =>
        req.isApi = true ∧ req.scope = scope ∧ limiter.identity req = identity ∧
          start ≤ req.wall ∧ req.wall < start + 60).length : Int) ≤
      2 * limiter.limitFor scope := by
  have hfirst := passed_minute htimely hlimit identity ⌊start / windowSeconds⌋
  have hsecond := passed_minute htimely hlimit identity (⌊start / windowSeconds⌋ + 1)
  -- Sixty seconds reach into two minutes of the wall clock.
  have hminutes : ∀ req : ApiRequest, start ≤ req.wall → req.wall < start + 60 →
      req.window = ⌊start / windowSeconds⌋ ∨ req.window = ⌊start / windowSeconds⌋ + 1 := by
    intro req hfrom hto
    have hlow : ⌊start / windowSeconds⌋ ≤ req.window := by
      unfold ApiRequest.window windowSeconds
      exact Int.floor_le_floor (by linarith)
    have hhigh : req.window ≤ ⌊start / windowSeconds⌋ + 1 := by
      unfold ApiRequest.window windowSeconds
      rw [← Int.floor_add_one]
      exact Int.floor_le_floor (by linarith)
    omega
  have hcover := length_filter_le_add (limiter.passed requests)
    (fun req => req.isApi = true ∧ req.scope = scope ∧ limiter.identity req = identity ∧
      start ≤ req.wall ∧ req.wall < start + 60)
    (fun req => limiter.CountedAs scope identity ⌊start / windowSeconds⌋ req)
    (fun req => limiter.CountedAs scope identity (⌊start / windowSeconds⌋ + 1) req) (by
      intro req h
      obtain ⟨hapi, hscope, hidentity, hfrom, hto⟩ := of_decide_eq_true h
      rcases hminutes req hfrom hto with hwindow | hwindow
      · exact .inl (decide_eq_true ⟨hapi, hscope, hidentity, hwindow⟩)
      · exact .inr (decide_eq_true ⟨hapi, hscope, hidentity, hwindow⟩))
  unfold countedAs at hfirst hsecond
  omega

theorem passed_span_seconds :
    (((onePerMinute.passed ((List.range 30).map fun second : Nat => runsRequest second)).filter
        fun req => req.isApi = true ∧ req.scope = .api ∧
          onePerMinute.identity req = "ip:10.0.0.1" ∧ 60 ≤ req.wall ∧ req.wall < 60 + 60).length :
        Int) ≤ 2 * onePerMinute.limitFor .api := by
  have hmem : ∀ r ∈ (List.range 30).map fun second : Nat => runsRequest second,
      r.Punctual 60 ∧ r.window = 1 := by
    intro r hr
    obtain ⟨second, hsecond, rfl⟩ := List.mem_map.mp hr
    have hlow : (0 : ℚ) ≤ second := by positivity
    have hhigh : (second : ℚ) < 30 := by exact_mod_cast List.mem_range.mp hsecond
    exact ⟨runsRequest_punctual hlow hhigh, runsRequest_window hlow hhigh⟩
  exact passed_span onePerMinute
    ⟨fun r hr => (hmem r hr).1, List.pairwise_of_forall_mem_list fun r hr r' hr' =>
      ((hmem r hr).2.trans (hmem r' hr').2.symm).le⟩ (by decide) _ _

end RateLimiter

end Recon
