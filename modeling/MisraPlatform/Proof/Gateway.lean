import MisraPlatform.Construction.Gateway

/-
This file proves that the middleware keeps the rate limit and asks for credentials in every interleaving of requests.
-/

namespace MisraPlatform
open RateLimitMiddleware SlidingWindow

variable {Jwks Response : Type}

def GatewayEvent.arrival : GatewayEvent Jwks → Option Arrival
  | .arrive arrival => some arrival
  | _ => none

def arrivals (events : List (GatewayEvent Jwks)) : List Arrival := events.filterMap GatewayEvent.arrival

/-- The limiter sees the arrivals that are not exempt. -/
def limitedEvents (events : List (GatewayEvent Jwks)) : List (String × Rat) :=
  ((arrivals events).filter fun arrival => exempt arrival.request = false).map event

/-- The clock does not go back from one arrival to the next. -/
def Clocked (events : List (GatewayEvent Jwks)) : Prop :=
  (arrivals events).Pairwise fun first second => first.time ≤ second.time

instance (events : List (GatewayEvent Jwks)) : Decidable (Clocked events) := inferInstanceAs (Decidable (List.Pairwise _ _))

def Outcome.isLimited (outcome : Outcome Response) : Bool :=
  match outcome.answer with
  | .ok .limited => true
  | _ => false

def Stage.isFetching : Stage → Bool
  | .fetching _ => true
  | .admitted => false

namespace Gateway

def waiting (gateway : Gateway Jwks Response) : Nat := gateway.inFlight.countP fun entry => entry.2.isFetching

/-- These requests were not refused by the rate limit. -/
def passed (gateway : Gateway Jwks Response) : List Arrival :=
  (gateway.finished.filter fun entry => entry.2.isLimited = false).map Prod.fst ++ gateway.inFlight.map Prod.fst

end Gateway

variable (app : Application Jwks Response)

/-- The limiter admits as many requests of a host in every window as the limit allows, and the application is
reached by no others. -/
structure RateLimited (events : List (GatewayEvent Jwks)) (gateway : Gateway Jwks Response) : Prop where
  seen : gateway.limiter.decisions.map Prod.fst = limitedEvents events
  exact : Exact (window app) app.settings.rateLimitRequests gateway.limiter.decisions
  passes : ((gateway.passed.filter fun arrival => exempt arrival.request = false).map event).Perm
    ((gateway.limiter.decisions.filter fun decision => decision.2).map Prod.fst)
  bounded : ∀ client start, (gateway.finished.filter fun entry => entry.2.reached.isSome ∧
    exempt entry.1.request = false ∧ host entry.1.request = client ∧
      start ≤ entry.1.time ∧ entry.1.time ≤ start + window app).length ≤ app.settings.rateLimitRequests.toNat
  remembered : ∀ client, (gateway.limiter.queue client).length ≤ app.settings.rateLimitRequests.toNat

/-- A request may reach the application as this user. -/
inductive Credentials (fetched : List (Except Raised Jwks)) (request : HttpRequest) : Option AuthenticatedUser → Prop
  | unprotected (free : request.path ∈ AuthMiddleware.publicPaths ∨ app.settings.authRequired = false) :
      Credentials fetched request none
  | apiKey (key : String) (given : request.apiKey = some key) (present : key ≠ "")
      (listed : key ∈ app.settings.apiKeys) : Credentials fetched request (some OidcAuthenticator.serviceAccount)
  | disabled (off : app.settings.oidcEnabled = false) :
      Credentials fetched request (some OidcAuthenticator.developmentUser)
  | token (keys : Jwks) (token : String) (payload : Claims) (known : .ok keys ∈ fetched)
      (given : AuthMiddleware.bearerToken request = some token) (valid : app.decode keys token = .ok payload) :
      Credentials fetched request (some (OidcAuthenticator.tokenUser payload))

/-- A request needs credentials, and it has no API key and no token that a key set confirms. -/
structure Lacks (fetched : List (Except Raised Jwks)) (request : HttpRequest) : Prop where
  isProtected : request.path ∉ AuthMiddleware.publicPaths ∧ app.settings.authRequired = true
  enabled : app.settings.oidcEnabled = true
  keyless : ∀ key, request.apiKey = some key → key ∉ app.settings.apiKeys ∨ key = ""
  unconfirmed : ∀ token, AuthMiddleware.bearerToken request = some token →
    ∃ answer ∈ fetched, ∃ error, (answer >>= fun keys => app.decode keys token) = .error error

/-- The answer is that of the application, except for an error of a value on the way with a token. -/
def AnsweredBy (request : HttpRequest) (user : Option AuthenticatedUser) (answer : Except Raised (Answer Response)) :
    Prop :=
  answer = (app.callNext request user).map .application ∨
    ∃ token text, AuthMiddleware.bearerToken request = some token ∧
      app.callNext request user = .error (.valueError text) ∧ answer = .ok (.unauthorized text)

/-- The application is reached with credentials only, and a refusal has its reason. -/
structure Sound (fetched : List (Except Raised Jwks)) (request : HttpRequest) (outcome : Outcome Response) : Prop where
  reached : ∀ user, outcome.reached = some user →
    Credentials app fetched request user ∧ AnsweredBy app request user outcome.answer
  refused : outcome.reached = none → outcome.answer = .ok .limited ∨ Lacks app fetched request

/-- Every request that the application has seen had credentials, every other one lacks them or was limited, and no
request is lost. -/
structure Authorised (events : List (GatewayEvent Jwks)) (gateway : Gateway Jwks Response) : Prop where
  sound : ∀ entry ∈ gateway.finished, Sound app gateway.fetched entry.1.request entry.2
  accounted : (gateway.finished.map Prod.fst ++ gateway.inFlight.map Prod.fst).Perm (arrivals events)

namespace Gateway
open AuthMiddleware OidcAuthenticator

/-! ### What one step does -/

/-- An arrival meets the rate limit, and a request in flight is answered or waits for a key set. -/
inductive Steps (gateway : Gateway Jwks Response) : GatewayEvent Jwks → Gateway Jwks Response → Prop
  | ignored (event : GatewayEvent Jwks) (quiet : event.arrival = none) : Steps gateway event gateway
  | exempted (arrival : Arrival) (free : exempt arrival.request = true) :
      Steps gateway (.arrive arrival) { gateway with inFlight := gateway.inFlight ++ [(arrival, .admitted)] }
  | admitted (arrival : Arrival) (counted : exempt arrival.request = false)
      (allowed : allows app gateway.limiter arrival = true) :
      Steps gateway (.arrive arrival)
        { gateway with
          limiter := gateway.limiter.step (window app) app.settings.rateLimitRequests (event arrival)
          inFlight := gateway.inFlight ++ [(arrival, .admitted)] }
  | limited (arrival : Arrival) (counted : exempt arrival.request = false)
      (allowed : allows app gateway.limiter arrival = false) :
      Steps gateway (.arrive arrival)
        { gateway with
          limiter := gateway.limiter.step (window app) app.settings.rateLimitRequests (event arrival)
          finished := gateway.finished ++ [(arrival, ⟨none, .ok .limited⟩)] }
  | decided (index : Nat) (arrival : Arrival) (outcome : Outcome Response)
      (found : gateway.inFlight[index]? = some (arrival, .admitted))
      (done : dispatch app gateway.jwks arrival.request = .done outcome) :
      Steps gateway (.authenticate index) (gateway.finish index arrival outcome)
  | asks (index : Nat) (arrival : Arrival) (token : String)
      (found : gateway.inFlight[index]? = some (arrival, .admitted))
      (undecided : dispatch app gateway.jwks arrival.request = .fetching token) :
      Steps gateway (.authenticate index)
        { gateway with inFlight := gateway.inFlight.set index (arrival, .fetching token) }
  | answered (index : Nat) (arrival : Arrival) (token : String) (answer : Except Raised Jwks)
      (found : gateway.inFlight[index]? = some (arrival, .fetching token)) :
      Steps gateway (.fetch index answer) ((gateway.store answer).finish index arrival
        (respondToToken app arrival.request (validateBearerToken app answer token)))

variable {app} {gateway : Gateway Jwks Response} {events : List (GatewayEvent Jwks)}

theorem step_steps (gateway : Gateway Jwks Response) (event : GatewayEvent Jwks) :
    Steps app gateway event (gateway.step app event) := by
  cases event with
  | arrive arrival =>
      rw [step, arrive]
      by_cases free : exempt arrival.request = true
      · rw [if_pos free]
        exact .exempted arrival free
      · rw [if_neg free]
        rw [Bool.not_eq_true] at free
        by_cases allowed : allows app gateway.limiter arrival = true
        · dsimp only
          rw [if_pos allowed]
          exact .admitted arrival free allowed
        · dsimp only
          rw [if_neg allowed]
          exact .limited arrival free (by simpa using allowed)
  | authenticate index =>
      rw [step, authenticate]
      split
      · rename_i arrival found
        split
        · rename_i outcome done
          exact .decided index arrival outcome found done
        · rename_i token undecided
          exact .asks index arrival token found undecided
      · exact .ignored _ rfl
  | fetch index answer =>
      rw [step, fetch]
      split
      · rename_i arrival token found
        exact .answered index arrival token answer found
      · exact .ignored _ rfl

/-- What every step keeps holds after every run. -/
theorem run_induction (kept : List (GatewayEvent Jwks) → Gateway Jwks Response → Prop)
    (start : kept [] gateway) (next : ∀ events before event after, kept events before →
      Steps app before event after → kept (events ++ [event]) after) :
    kept events (gateway.run app events) := by
  induction events using List.reverseRecOn with
  | nil => exact start
  | append_singleton events event ih =>
      rw [run, List.foldl_concat, ← run]
      exact next events _ event _ ih (step_steps _ event)

/-! ### The requests in flight -/

section InFlight

variable {index : Nat} {arrival : Arrival} {stage other : Stage} {outcome : Outcome Response}

theorem inFlight_perm (found : gateway.inFlight[index]? = some (arrival, stage)) :
    ((arrival, stage) :: gateway.inFlight.eraseIdx index).Perm gateway.inFlight := by
  obtain ⟨inside, same⟩ := List.getElem?_eq_some_iff.mp found
  rw [← same]
  exact List.getElem_cons_eraseIdx_perm inside

theorem inFlight_set (found : gateway.inFlight[index]? = some (arrival, stage)) :
    (gateway.inFlight.set index (arrival, other)).map Prod.fst = gateway.inFlight.map Prod.fst := by
  obtain ⟨inside, same⟩ := List.getElem?_eq_some_iff.mp found
  rw [List.map_set]
  apply List.ext_getElem?
  intro position
  rw [List.getElem?_set]
  split
  · rename_i here
    subst here
    simp [inside, same]
  · rfl

theorem finish_perm (found : gateway.inFlight[index]? = some (arrival, stage)) :
    ((gateway.finish index arrival outcome).finished.map Prod.fst ++
        (gateway.finish index arrival outcome).inFlight.map Prod.fst).Perm
      (gateway.finished.map Prod.fst ++ gateway.inFlight.map Prod.fst) := by
  rw [finish, List.map_append, List.append_assoc]
  exact ((inFlight_perm found).map Prod.fst).append_left _

theorem passed_finish (found : gateway.inFlight[index]? = some (arrival, stage))
    (isOpen : outcome.isLimited = false) : (gateway.finish index arrival outcome).passed.Perm gateway.passed := by
  rw [passed, finish, List.filter_append, List.filter_cons_of_pos (by simpa using isOpen), List.filter_nil,
    List.map_append, List.append_assoc]
  exact ((inFlight_perm found).map Prod.fst).append_left _

end InFlight

/-! ### The rate limit -/

def initial : Gateway Jwks Response := {}

theorem arrivals_concat (event : GatewayEvent Jwks) :
    arrivals (events ++ [event]) = arrivals events ++ event.arrival.toList := by
  rw [arrivals, List.filterMap_append, ← arrivals]
  cases quiet : event.arrival with
  | none => rw [List.filterMap_cons_none quiet]; rfl
  | some arrival => rw [List.filterMap_cons_some quiet]; rfl

theorem limitedEvents_of_quiet {event : GatewayEvent Jwks} (quiet : event.arrival = none) :
    limitedEvents (events ++ [event]) = limitedEvents events := by
  rw [limitedEvents, arrivals_concat, quiet, Option.toList_none, List.append_nil, ← limitedEvents]

theorem limitedEvents_of_exempt {arrival : Arrival} (free : exempt arrival.request = true) :
    limitedEvents (events ++ [GatewayEvent.arrive arrival]) = limitedEvents events := by
  rw [limitedEvents, arrivals_concat, List.filter_append]
  simp [GatewayEvent.arrival, free, limitedEvents]

theorem limitedEvents_of_counted {arrival : Arrival} (counted : exempt arrival.request = false) :
    limitedEvents (events ++ [GatewayEvent.arrive arrival]) = limitedEvents events ++ [event arrival] := by
  rw [limitedEvents, arrivals_concat, List.filter_append]
  simp [GatewayEvent.arrival, counted, limitedEvents]

/-- The limiter of a run is that of its arrivals. -/
theorem limiter_run : ((initial : Gateway Jwks Response).run app events).limiter =
    Limiter.run (window app) app.settings.rateLimitRequests (limitedEvents events) := by
  apply run_induction fun events gateway =>
    gateway.limiter = Limiter.run (window app) app.settings.rateLimitRequests (limitedEvents events)
  · rfl
  · intro events before event after same moves
    cases moves with
    | ignored _ quiet => rw [limitedEvents_of_quiet quiet, same]
    | exempted arrival free => rw [limitedEvents_of_exempt free, same]
    | admitted arrival counted _ | limited arrival counted _ =>
        rw [limitedEvents_of_counted counted, run_concat, ← same]
    | decided _ _ _ _ _ | asks _ _ _ _ _ | answered _ _ _ _ _ =>
        rw [limitedEvents_of_quiet rfl]
        exact same

theorem isLimited_respond (request : HttpRequest) (user : Option AuthenticatedUser) :
    (respond app request user).isLimited = false := by
  rw [respond]
  cases called : app.callNext request user <;> simp [Outcome.isLimited, Except.map]

theorem isLimited_guarded {outcome : Outcome Response} (isOpen : outcome.isLimited = false) :
    (guarded outcome).isLimited = false := by
  unfold guarded
  split
  · rfl
  · exact isOpen

theorem isLimited_respondToToken (request : HttpRequest) (validated : Except Raised AuthenticatedUser) :
    (respondToToken app request validated).isLimited = false := by
  cases validated with
  | ok user => exact isLimited_guarded (isLimited_respond request (some user))
  | error error => exact isLimited_guarded rfl

/-- The authentication never answers for the rate limit. -/
theorem isLimited_dispatch {jwks : Option Jwks} {request : HttpRequest} {outcome : Outcome Response}
    (done : dispatch app jwks request = .done outcome) : outcome.isLimited = false := by
  unfold dispatch at done
  split at done
  · cases done
    exact isLimited_respond request none
  · split at done
    · cases done
      exact isLimited_respond request _
    · split at done
      · unfold dispatchToken at done
        split at done
        · split at done
          · cases done
            exact isLimited_respondToToken request _
          · cases done
        · cases done
          exact isLimited_respondToToken request _
      · split at done
        · cases done
          rfl
        · cases done
          exact isLimited_respond request _

/-- The requests that are not exempt pass exactly as the limiter has decided. -/
def PassesAsDecided (gateway : Gateway Jwks Response) : Prop :=
  ((gateway.passed.filter fun arrival => exempt arrival.request = false).map event).Perm
    ((gateway.limiter.decisions.filter fun decision => decision.2).map Prod.fst)

theorem PassesAsDecided.congr {after : Gateway Jwks Response} (passes : PassesAsDecided gateway)
    (same : after.limiter = gateway.limiter) (moved : after.passed.Perm gateway.passed) : PassesAsDecided after := by
  rw [PassesAsDecided, same]
  exact ((moved.filter _).map _).trans passes

theorem passed_arrive (limiter : Limiter String Rat) (arrival : Arrival) :
    passed { gateway with limiter := limiter, inFlight := gateway.inFlight ++ [(arrival, .admitted)] } =
      gateway.passed ++ [arrival] := by
  rw [passed, List.map_append, ← List.append_assoc]
  rfl

theorem passed_limit (limiter : Limiter String Rat) (arrival : Arrival) :
    passed { gateway with limiter := limiter, finished := gateway.finished ++ [(arrival, ⟨none, .ok .limited⟩)] } =
      gateway.passed := by
  rw [passed, List.filter_append, List.filter_cons_of_neg (by simp [Outcome.isLimited]), List.filter_nil,
    List.append_nil]
  rfl

theorem decisions_step {arrival : Arrival} :
    (gateway.limiter.step (window app) app.settings.rateLimitRequests (event arrival)).decisions =
      gateway.limiter.decisions ++ [(event arrival, allows app gateway.limiter arrival)] := rfl

theorem passesAsDecided_run : PassesAsDecided ((initial : Gateway Jwks Response).run app events) := by
  apply run_induction fun _ gateway => PassesAsDecided gateway
  · exact List.Perm.refl _
  · intro events before event after passes moves
    cases moves with
    | ignored _ _ => exact passes
    | exempted arrival free =>
        rw [PassesAsDecided, passed_arrive before.limiter, List.filter_append,
          List.filter_cons_of_neg (by simp [free]), List.filter_nil, List.append_nil]
        exact passes
    | admitted arrival counted allowed =>
        rw [PassesAsDecided, passed_arrive, List.filter_append, List.filter_cons_of_pos (by simp [counted]),
          List.filter_nil, decisions_step, allowed, List.filter_append, List.map_append, List.map_append]
        exact passes.append_right _
    | limited arrival counted allowed =>
        rw [PassesAsDecided, passed_limit, decisions_step, allowed, List.filter_append,
          List.filter_cons_of_neg (by simp), List.filter_nil, List.append_nil]
        exact passes
    | decided index arrival outcome found done =>
        exact passes.congr (by rfl) (passed_finish found (isLimited_dispatch done))
    | asks index arrival token found _ =>
        refine passes.congr (by rfl) ?_
        rw [passed, inFlight_set found]
        exact List.Perm.refl _
    | answered index arrival token answer found =>
        refine passes.congr (by rfl) ?_
        exact passed_finish found (isLimited_respondToToken _ _)

/-- A request that has reached the application was not limited. -/
theorem isLimited_of_run : ∀ entry ∈ ((initial : Gateway Jwks Response).run app events).finished,
    entry.2.isLimited = true → entry.2.reached = none := by
  apply run_induction fun _ gateway => ∀ entry ∈ gateway.finished, entry.2.isLimited = true → entry.2.reached = none
  · intro entry listed
    cases listed
  · intro events before event after known moves
    have finished : ∀ arrival outcome, outcome.isLimited = false →
        ∀ entry ∈ before.finished ++ [(arrival, outcome)], entry.2.isLimited = true → entry.2.reached = none := by
      intro arrival outcome isOpen entry listed limited
      cases List.mem_append.mp listed with
      | inl earlier => exact known entry earlier limited
      | inr last =>
          rw [List.mem_singleton.mp last, isOpen] at limited
          cases limited
    cases moves with
    | ignored _ _ | exempted _ _ | admitted _ _ _ | asks _ _ _ _ _ => exact known
    | limited arrival _ _ =>
        intro entry listed limited
        cases List.mem_append.mp listed with
        | inl earlier => exact known entry earlier limited
        | inr last => rw [List.mem_singleton.mp last]
    | decided index arrival outcome _ done => exact finished arrival outcome (isLimited_dispatch done)
    | answered index arrival token answer _ => exact finished arrival _ (isLimited_respondToToken _ _)

/-- An event of the client lies in the window from here on. -/
def inWindow (app : Application Jwks Response) (client : String) (start : Rat) (event : String × Rat) : Bool :=
  event.1 = client ∧ start ≤ event.2 ∧ event.2 ≤ start + window app

theorem count_decisions (decisions : List ((String × Rat) × Bool)) (client : String) (start : Rat) :
    (((decisions.filter fun decision => decision.2).map Prod.fst).countP (inWindow app client start)) =
      ((SlidingWindow.admitted client decisions).filter fun time =>
        start ≤ time ∧ time ≤ start + window app).length := by
  rw [SlidingWindow.admitted, ← List.countP_eq_length_filter, List.countP_map, List.countP_map, List.countP_filter,
    List.countP_filter]
  apply List.countP_congr
  intro decision _
  simp [inWindow]
  tauto

/-- The requests that have reached the application are among those that passed. -/
theorem count_reached (limited : ∀ entry ∈ gateway.finished, entry.2.isLimited = true → entry.2.reached = none)
    (client : String) (start : Rat) :
    (gateway.finished.filter fun entry => entry.2.reached.isSome ∧ exempt entry.1.request = false ∧
      host entry.1.request = client ∧ start ≤ entry.1.time ∧ entry.1.time ≤ start + window app).length ≤
      ((gateway.passed.filter fun arrival => exempt arrival.request = false).map event).countP
        (inWindow app client start) := by
  rw [passed, List.filter_append, List.map_append, List.countP_append, ← List.countP_eq_length_filter,
    List.countP_map, List.countP_filter, List.countP_map, List.countP_filter]
  refine (List.countP_mono_left ?_).trans (Nat.le_add_right _ _)
  intro entry listed inside
  have inside : entry.2.reached.isSome ∧ exempt entry.1.request = false ∧ host entry.1.request = client ∧
      start ≤ entry.1.time ∧ entry.1.time ≤ start + window app := by simpa using inside
  have isOpen : entry.2.isLimited = false := by
    by_contra closed
    rw [limited entry listed (by simpa using closed)] at inside
    cases inside.1
  simp [isOpen, inside.2.1, inWindow, event, inside.2.2]

/-- In every interleaving the limiter holds each host to its limit, if the clock does not go back. -/
theorem rateLimited_run (app : Application Jwks Response) (events : List (GatewayEvent Jwks))
    (clocked : Clocked events) : RateLimited app events (initial.run app events) := by
  have sorted : (limitedEvents events).Pairwise fun first second => first.2 ≤ second.2 :=
    List.pairwise_map.mpr (clocked.filter _)
  obtain ⟨exact, bounded⟩ := run_exact (window app) app.settings.rateLimitRequests sorted
  rw [← limiter_run] at exact bounded
  have passes : PassesAsDecided ((initial : Gateway Jwks Response).run app events) := passesAsDecided_run
  refine ⟨by rw [limiter_run, run_events], exact, passes, ?_, ?_⟩
  · intro client start
    calc _ ≤ _ := count_reached isLimited_of_run client start
      _ = _ := passes.countP_eq _
      _ = _ := count_decisions _ client start
      _ ≤ _ := bounded client start
  · intro client
    rw [limiter_run]
    exact run_queue_length client

/-! ### The credentials -/

section Credentials

variable {fetched later : List (Except Raised Jwks)} {request : HttpRequest} {outcome : Outcome Response}
  {token : String}

theorem credentials_mono {user : Option AuthenticatedUser} (more : ∀ answer ∈ fetched, answer ∈ later)
    (credentials : Credentials app fetched request user) : Credentials app later request user := by
  cases credentials with
  | unprotected free => exact .unprotected free
  | apiKey key given present listed => exact .apiKey key given present listed
  | disabled off => exact .disabled off
  | token keys token payload known given valid => exact .token keys token payload (more _ known) given valid

theorem lacks_mono (more : ∀ answer ∈ fetched, answer ∈ later) (lacks : Lacks app fetched request) :
    Lacks app later request :=
  { lacks with
    unconfirmed := by
      intro token given
      obtain ⟨answer, known, error, failed⟩ := lacks.unconfirmed token given
      exact ⟨answer, more answer known, error, failed⟩ }

theorem sound_mono (more : ∀ answer ∈ fetched, answer ∈ later) (sound : Sound app fetched request outcome) :
    Sound app later request outcome where
  reached user same := ⟨credentials_mono more (sound.reached user same).1, (sound.reached user same).2⟩
  refused none := (sound.refused none).imp_right (lacks_mono more)

/-- The request needs a key set for its token. -/
structure AsksFor (app : Application Jwks Response) (request : HttpRequest) (token : String) : Prop where
  isProtected : request.path ∉ publicPaths ∧ app.settings.authRequired = true
  enabled : app.settings.oidcEnabled = true
  keyless : validateApiKey app.settings request.apiKey = none
  given : bearerToken request = some token

theorem keyless_of_none (none : validateApiKey app.settings request.apiKey = none) (key : String)
    (given : request.apiKey = some key) : key ∉ app.settings.apiKeys ∨ key = "" := by
  rw [given, validateApiKey] at none
  by_contra valid
  push Not at valid
  rw [if_pos ⟨valid.2, valid.1⟩] at none
  cases none

theorem sound_respond {user : Option AuthenticatedUser} (credentials : Credentials app fetched request user) :
    Sound app fetched request (respond app request user) where
  reached other same := by
    cases same
    exact ⟨credentials, .inl rfl⟩
  refused none := by cases none

theorem answeredBy_guarded (user : Option AuthenticatedUser) (given : bearerToken request = some token) :
    AnsweredBy app request user (guarded (respond app request user)).answer := by
  cases called : app.callNext request user with
  | ok response => exact .inl (by simp [guarded, respond, called, Except.map])
  | error error =>
      cases error with
      | valueError text => exact .inr ⟨token, text, given, called, by simp [guarded, respond, called, Except.map]⟩
      | jwtError text | httpError text | other text =>
          exact .inl (by simp [guarded, respond, called, Except.map])

theorem reached_guarded (outcome : Outcome Response) : (guarded outcome).reached = outcome.reached := by
  unfold guarded
  split <;> rfl

/-- The answer of a token depends on what the key set makes of it. -/
theorem sound_respondToToken {answer : Except Raised Jwks} (asks : AsksFor app request token)
    (known : answer ∈ fetched) :
    Sound app fetched request (respondToToken app request (validateBearerToken app answer token)) := by
  unfold validateBearerToken
  cases decoded : answer >>= fun keys => app.decode keys token with
  | error error =>
      constructor
      · intro user same
        rw [respondToToken, reached_guarded] at same
        cases same
      · intro _
        refine .inr ⟨asks.isProtected, asks.enabled, keyless_of_none asks.keyless, ?_⟩
        intro other given
        rw [asks.given] at given
        cases given
        exact ⟨answer, known, error, decoded⟩
  | ok payload =>
      cases answer with
      | error error => cases decoded
      | ok keys =>
          constructor
          · intro user same
            rw [respondToToken, reached_guarded] at same
            cases same
            exact ⟨.token keys token payload known asks.given decoded, answeredBy_guarded _ asks.given⟩
          · intro none
            rw [respondToToken, reached_guarded] at none
            cases none

theorem sound_dispatchToken {jwks : Option Jwks} (stored : ∀ keys, jwks = some keys → .ok keys ∈ fetched)
    (isProtected : request.path ∉ publicPaths ∧ app.settings.authRequired = true)
    (keyless : validateApiKey app.settings request.apiKey = none) (given : bearerToken request = some token)
    (done : dispatchToken app jwks request token = .done outcome) : Sound app fetched request outcome := by
  unfold dispatchToken at done
  split at done
  · rename_i enabled
    split at done
    · rename_i keys found
      cases done
      exact sound_respondToToken ⟨isProtected, enabled, keyless, given⟩
        (stored keys (Option.filter_eq_some_iff.mp found).1)
    · cases done
  · rename_i off
    cases done
    constructor
    · intro user same
      rw [respondToToken, reached_guarded] at same
      cases same
      exact ⟨.disabled (by simpa using off), answeredBy_guarded _ given⟩
    · intro none
      rw [respondToToken, reached_guarded] at none
      cases none

/-- A request that is answered without a new key set has credentials or lacks them. -/
theorem sound_dispatch {jwks : Option Jwks} (stored : ∀ keys, jwks = some keys → .ok keys ∈ fetched)
    (done : dispatch app jwks request = .done outcome) : Sound app fetched request outcome := by
  unfold dispatch at done
  split at done
  · rename_i free
    cases done
    exact sound_respond (.unprotected free)
  · rename_i closed
    push Not at closed
    have isProtected : request.path ∉ publicPaths ∧ app.settings.authRequired = true := by simpa using closed
    split at done
    · rename_i user valid
      cases done
      unfold validateApiKey at valid
      split at valid
      · rename_i key given
        split at valid
        · rename_i listed
          cases valid
          exact sound_respond (.apiKey key given listed.1 listed.2)
        · cases valid
      · cases valid
    · rename_i keyless
      split at done
      · rename_i token given
        exact sound_dispatchToken stored isProtected keyless given done
      · rename_i bare
        split at done
        · rename_i enabled
          cases done
          constructor
          · intro user same
            cases same
          · intro _
            refine .inr ⟨isProtected, enabled, keyless_of_none keyless, ?_⟩
            intro token given
            rw [bare] at given
            cases given
        · rename_i off
          cases done
          exact sound_respond (.disabled (by simpa using off))

theorem asksFor_of_fetching {jwks : Option Jwks} (undecided : dispatch app jwks request = .fetching token) :
    AsksFor app request token := by
  unfold dispatch at undecided
  split at undecided
  · cases undecided
  · rename_i closed
    push Not at closed
    split at undecided
    · cases undecided
    · rename_i keyless
      split at undecided
      · rename_i other given
        unfold dispatchToken at undecided
        split at undecided
        · rename_i enabled
          split at undecided
          · cases undecided
          · cases undecided
            exact ⟨by simpa using closed, enabled, keyless, given⟩
        · cases undecided
      · split at undecided <;> cases undecided

end Credentials

/-- The stored key set has been fetched, and only requests for one wait. -/
structure Serves (app : Application Jwks Response) (events : List (GatewayEvent Jwks))
    (gateway : Gateway Jwks Response) : Prop extends Authorised app events gateway where
  stored : ∀ keys, gateway.jwks = some keys → .ok keys ∈ gateway.fetched
  asking : ∀ arrival token, (arrival, Stage.fetching token) ∈ gateway.inFlight → AsksFor app arrival.request token

theorem Serves.finish (serves : Serves app events gateway) {index : Nat} {arrival : Arrival} {stage : Stage}
    {outcome : Outcome Response} (found : gateway.inFlight[index]? = some (arrival, stage))
    (sound : Sound app gateway.fetched arrival.request outcome) :
    Serves app events (gateway.finish index arrival outcome) where
  sound entry listed := by
    cases List.mem_append.mp listed with
    | inl earlier => exact serves.sound entry earlier
    | inr last =>
        rw [List.mem_singleton.mp last]
        exact sound
  accounted := (finish_perm found).trans serves.accounted
  stored := serves.stored
  asking other token listed := serves.asking other token (List.mem_of_mem_eraseIdx listed)

theorem Serves.store (serves : Serves app events gateway) (answer : Except Raised Jwks) :
    Serves app events (gateway.store answer) where
  sound entry listed := sound_mono (fun _ => List.mem_append_left _) (serves.sound entry listed)
  accounted := serves.accounted
  stored keys same := by
    cases answer with
    | ok answered =>
        cases same
        exact List.mem_append_right _ (List.mem_singleton_self _)
    | error error => exact List.mem_append_left _ (serves.stored keys same)
  asking := serves.asking

/-- Another event than an arrival accounts for the same requests. -/
theorem Serves.quiet {event : GatewayEvent Jwks} (quiet : event.arrival = none)
    (serves : Serves app events gateway) : Serves app (events ++ [event]) gateway :=
  { serves with
    accounted := by
      rw [arrivals_concat, quiet, Option.toList_none, List.append_nil]
      exact serves.accounted }

theorem Serves.enter (serves : Serves app events gateway) (limiter : Limiter String Rat) (arrival : Arrival) :
    Serves app (events ++ [GatewayEvent.arrive arrival])
      { gateway with limiter := limiter, inFlight := gateway.inFlight ++ [(arrival, .admitted)] } where
  sound := serves.sound
  accounted := by
    rw [arrivals_concat, List.map_append, ← List.append_assoc]
    exact serves.accounted.append_right _
  stored := serves.stored
  asking other token listed := by
    cases List.mem_append.mp listed with
    | inl earlier => exact serves.asking other token earlier
    | inr last => cases List.mem_singleton.mp last

theorem Serves.limit (serves : Serves app events gateway) (limiter : Limiter String Rat) (arrival : Arrival) :
    Serves app (events ++ [GatewayEvent.arrive arrival])
      { gateway with limiter := limiter, finished := gateway.finished ++ [(arrival, ⟨none, .ok .limited⟩)] } where
  sound entry listed := by
    cases List.mem_append.mp listed with
    | inl earlier => exact serves.sound entry earlier
    | inr last =>
        rw [List.mem_singleton.mp last]
        refine ⟨?_, fun _ => .inl rfl⟩
        intro user same
        cases same
  accounted := by
    rw [arrivals_concat, List.map_append, List.append_assoc]
    have moved : (gateway.finished.map Prod.fst ++ ([arrival] ++ gateway.inFlight.map Prod.fst)).Perm
        (gateway.finished.map Prod.fst ++ gateway.inFlight.map Prod.fst ++ [arrival]) := by
      rw [List.append_assoc]
      exact List.perm_append_comm.append_left _
    exact moved.trans (serves.accounted.append_right _)
  stored := serves.stored
  asking := serves.asking

theorem Serves.wait (serves : Serves app events gateway) {index : Nat} {arrival : Arrival} {token : String}
    (found : gateway.inFlight[index]? = some (arrival, .admitted)) (asks : AsksFor app arrival.request token) :
    Serves app events { gateway with inFlight := gateway.inFlight.set index (arrival, .fetching token) } where
  sound := serves.sound
  accounted := by
    rw [inFlight_set found]
    exact serves.accounted
  stored := serves.stored
  asking other wanted listed := by
    cases List.mem_or_eq_of_mem_set listed with
    | inl earlier => exact serves.asking other wanted earlier
    | inr same =>
        cases same
        exact asks

theorem serves_run : Serves app events ((initial : Gateway Jwks Response).run app events) := by
  apply run_induction fun events gateway => Serves app events gateway
  · refine ⟨⟨?_, List.Perm.refl _⟩, ?_, ?_⟩
    · intro entry listed
      cases listed
    · intro keys same
      cases same
    · intro arrival token listed
      cases listed
  · intro events before event after serves moves
    cases moves with
    | ignored _ quiet => exact serves.quiet quiet
    | exempted arrival _ => exact serves.enter before.limiter arrival
    | admitted arrival _ _ => exact serves.enter _ arrival
    | limited arrival _ _ => exact serves.limit _ arrival
    | decided index arrival outcome found done =>
        exact (serves.finish found (sound_dispatch serves.stored done)).quiet rfl
    | asks index arrival token found undecided =>
        exact (serves.wait found (asksFor_of_fetching undecided)).quiet rfl
    | answered index arrival token answer found =>
        have asks := serves.asking arrival token (List.mem_of_getElem? found)
        have known : answer ∈ (before.store answer).fetched := List.mem_append_right _ (List.mem_singleton_self _)
        exact ((serves.store answer).finish found (sound_respondToToken asks known)).quiet rfl

/-- In every interleaving the application is reached with credentials only, and no request is lost. -/
theorem authorised_run (app : Application Jwks Response) (events : List (GatewayEvent Jwks)) :
    Authorised app events (initial.run app events) :=
  serves_run.toAuthorised

/-! ### The key set -/

/-- The stored key set counts as one. -/
def Cached (app : Application Jwks Response) (gateway : Gateway Jwks Response) : Prop :=
  ∃ keys, gateway.jwks = some keys ∧ app.truthy keys = true

theorem not_fetching {request : HttpRequest} {token : String} (cached : Cached app gateway) :
    dispatch app gateway.jwks request ≠ .fetching token := by
  intro undecided
  obtain ⟨keys, stored, usable⟩ := cached
  have found : gateway.jwks.filter app.truthy = some keys := by rw [stored, Option.filter_some, if_pos usable]
  unfold dispatch at undecided
  split at undecided
  · cases undecided
  · split at undecided
    · cases undecided
    · split at undecided
      · unfold dispatchToken at undecided
        rw [found] at undecided
        split at undecided <;> cases undecided
      · split at undecided <;> cases undecided

theorem waiting_append (arrival : Arrival) :
    (gateway.inFlight ++ [(arrival, Stage.admitted)]).countP (fun entry => entry.2.isFetching) = gateway.waiting := by
  rw [List.countP_append, waiting]
  rfl

theorem waiting_erase {index : Nat} {arrival : Arrival} {stage : Stage}
    (found : gateway.inFlight[index]? = some (arrival, stage)) :
    (gateway.inFlight.eraseIdx index).countP (fun entry => entry.2.isFetching) + stage.isFetching.toNat =
      gateway.waiting := by
  rw [waiting, ← (inFlight_perm found).countP_eq, List.countP_cons]
  cases stage <;> rfl

/-- Each request that waits for a key set brings one answer, and no other request asks. -/
structure Settling (app : Application Jwks Response) (before after : Gateway Jwks Response) : Prop where
  cached : Cached app after
  balanced : after.fetched.length + after.waiting = before.fetched.length + before.waiting
  fixed : before.waiting = 0 → after.jwks = before.jwks ∧ after.fetched = before.fetched

variable {after : Gateway Jwks Response}

theorem Settling.congr (settling : Settling app gateway after) {last : Gateway Jwks Response}
    (jwks : last.jwks = after.jwks) (fetched : last.fetched = after.fetched) (waiting : last.waiting = after.waiting) :
    Settling app gateway last where
  cached := by
    rw [Cached, jwks]
    exact settling.cached
  balanced := by rw [fetched, waiting, settling.balanced]
  fixed idle := by rw [jwks, fetched]; exact settling.fixed idle

theorem Settling.answer (settling : Settling app gateway after) {index : Nat} {arrival : Arrival} {token : String}
    (found : after.inFlight[index]? = some (arrival, .fetching token)) {answer : Except Raised Jwks}
    (usable : ∀ keys, answer = .ok keys → app.truthy keys = true) (outcome : Outcome Response) :
    Settling app gateway ((after.store answer).finish index arrival outcome) := by
  have fewer : ((after.store answer).finish index arrival outcome).waiting + 1 = after.waiting := waiting_erase found
  have longer : ((after.store answer).finish index arrival outcome).fetched.length = after.fetched.length + 1 := by
    rw [finish, store, List.length_append, List.length_singleton]
  constructor
  · cases answer with
    | ok keys => exact ⟨keys, rfl, usable keys rfl⟩
    | error error => exact settling.cached
  · rw [longer, ← settling.balanced, ← fewer]
    omega
  · intro idle
    have balanced := settling.balanced
    rw [idle, (settling.fixed idle).2, ← fewer] at balanced
    omega

section Sample

/-- The key set 1 confirms the token `valid`, and the key set 0 is empty. -/
def sampleApplication : Application Nat Nat where
  settings := { authRequired := true, oidcEnabled := true, apiKeys := ["ci"], rateLimitRequests := 2 }
  decode keys token := if keys = 1 ∧ token = "valid" then .ok [("sub", some (.text "user"))] else .error (.jwtError "bad")
  truthy keys := keys ≠ 0
  callNext _ _ := .ok 200

def sampleArrival (time : Rat) (header : Option String) : GatewayEvent Nat :=
  .arrive ⟨time, { path := "/api/v1/projects", clientHost := some "host", authorization := header }⟩

/-- Two requests ask for the key set before it comes back, and the third one is too many. -/
def sampleEvents : List (GatewayEvent Nat) :=
  [sampleArrival 0 (some "Bearer valid"), sampleArrival 1 (some "Bearer other"), sampleArrival 2 none,
    .authenticate 1, .authenticate 0, .fetch 1 (.ok 1)]

theorem rateLimited_run_sample :
    RateLimited sampleApplication sampleEvents (initial.run sampleApplication sampleEvents) :=
  rateLimited_run sampleApplication sampleEvents (by decide)

end Sample

end Gateway

end MisraPlatform
