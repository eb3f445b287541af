import EkEk.Lib.Sha256
import EkEk.Tls.Acme

/-!
# How long one attempt may last

Reference: `crates/ek-ek-tls/src/order.rs` and `drive` of `crates/ek-ek-tls/src/acme.rs`.

Two constants are there so that no server holds an attempt open: `MOST_POLLS` bounds the reads of an
order the server is still deciding on, and `MOST_NONCE_RETRIES` the repetitions of one request. The
stages of a flow lead on to the certificate, with one way back. Handing over the signing request sets
the count of reads to zero, and an order that is still ready afterwards has its signing request handed
over again.

`weight` is how many more answers may move a flow on while the order is never ready. An answer that says
ready is worth another round of reads. `ends_iff_ready_bounded` is that nothing else holds an attempt
open: it ends within a number of answers that depends on the authorizations of the order alone, exactly
as long as the server says ready only so often.
-/

namespace EkEk.Tls

open Checked

variable (lib : Libraries)

/-- The document an answer carries. -/
def document (answer : Answer) : Option Value := (parse lib answer.body).toOption

/-- Whether a server says that an order is ready. -/
def saysReady (answer : Answer) : Bool := ((document lib answer).bind status) = some "ready"

/-- How many authorizations an answer names. -/
def authorizationCount (answer : Answer) : ℕ :=
  (((document lib answer).bind fun document => (authorizations document).toOption).getD []).length

/-- How often a server says that an order is ready. -/
def readies (replies : Replies) : ℕ :=
  replies.countP fun reply => reply.toOption.any fun reply => saysReady lib reply.answer

/-- A server that names no more authorizations than that. -/
def NamesAtMost (n : ℕ) (replies : Replies) : Prop :=
  ∀ reply, .ok reply ∈ replies → authorizationCount lib reply.answer ≤ n

/-- How many answers may still move a flow on without saying that the order is ready. -/
def weight (n : ℕ) (flow : Flow) : ℕ :=
  let reads := mostPolls + 1 - flow.polls
  match flow.stage with
  | .directory => 2 * n + reads + 4
  | .nonce => 2 * n + reads + 3
  | .account => 2 * n + reads + 2
  | .order | .resume => 2 * n + reads + 1
  | .authorization => 2 * flow.waiting.length + reads
  | .accept => 2 * flow.waiting.length + reads + 1
  | .poll => reads
  | .finalize => mostPolls + 1
  | .download | .done => 0

/-- What saying that an order is ready is worth. -/
def worth (answer : Answer) : ℕ := if saysReady lib answer then mostPolls + 1 else 0

/-! ## One answer -/

section

variable {lib} {flow flow' : Flow} {answer : Answer} {n : ℕ}

/-- What an answer that moves a flow on costs. -/
structure Lighter (lib : Libraries) (n : ℕ) (answer : Answer) (flow flow' : Flow) : Prop where
  polls : flow'.polls ≤ mostPolls
  weight : flow'.stage ≠ .done → weight n flow' + 1 ≤ weight n flow + worth lib answer

/-- An answer that makes a flow lighter even without saying ready. -/
theorem Lighter.of_lt {m : ℕ} (hpolls : flow'.polls ≤ mostPolls) (hweight : Tls.weight n flow = m)
    (hless : Tls.weight n flow' < m) : Lighter lib n answer flow flow' := by
  refine ⟨hpolls, fun _ => ?_⟩
  rw [hweight]
  omega

/-- An answer that reads has a document. -/
theorem document_eq_some {value : Value} (h : parse lib answer.body = .ok value) :
    document lib answer = some value := by
  rw [document, h]
  rfl

/-- An order that is ready again is worth another round of questions. -/
theorem worth_of_ready {value : Value} (h : parse lib answer.body = .ok value)
    (hready : status value = some "ready") : worth lib answer = mostPolls + 1 := by
  have hsays : saysReady lib answer = true := by
    rw [saysReady, document_eq_some h, Option.bind_some, hready]
    rfl
  rw [worth, if_pos hsays]

theorem length_authorizations {value : Value} {waiting : List String}
    (hparse : parse lib answer.body = .ok value) (h : authorizations value = .ok waiting)
    (hcount : authorizationCount lib answer ≤ n) : waiting.length ≤ n := by
  rw [authorizationCount, document_eq_some hparse, Option.bind_some, h] at hcount
  exact hcount

/-- The reads that are left are a flow's weight while it waits on the server. -/
theorem weight_afterwards (hstage : flow'.stage = Flow.afterwards flow'.waiting) :
    weight n flow' = 2 * flow'.waiting.length + (mostPolls + 1 - flow'.polls) := by
  rw [Flow.afterwards] at hstage
  split at hstage
  · rename_i hnone
    simp [weight, hstage, hnone]
  · simp [weight, hstage]

/-- Reading the directory brings a flow nearer its end. -/
theorem lighter_readDirectory (h : flow.readDirectory lib answer = .ok flow')
    (hpolls : flow.polls ≤ mostPolls) (hstage : flow.stage = .directory) :
    Lighter lib n answer flow flow' := by
  have hweight : weight n flow = 2 * n + (mostPolls + 1 - flow.polls) + 4 := by rw [weight, hstage]
  simp only [Flow.readDirectory, bind_eq_ok] at h
  obtain ⟨value, -, newNonce, -, newAccount, -, newOrder, -, h⟩ := h
  obtain rfl := Except.ok.inj h
  refine .of_lt hpolls hweight ?_
  simp only [weight]
  omega

/-- So does reading the account. -/
theorem lighter_readAccount (h : flow.readAccount answer = .ok flow')
    (hpolls : flow.polls ≤ mostPolls) (hstage : flow.stage = .account) :
    Lighter lib n answer flow flow' := by
  have hweight : weight n flow = 2 * n + (mostPolls + 1 - flow.polls) + 2 := by rw [weight, hstage]
  rw [Flow.readAccount] at h
  obtain ⟨account, -, h⟩ := bind_eq_ok.mp h
  obtain rfl := Except.ok.inj h
  refine ⟨hpolls, fun _ => ?_⟩
  rw [hweight]
  by_cases hresuming : flow.resuming = true
  · simp only [weight, hresuming, if_true]
    omega
  · simp only [weight, hresuming, Bool.false_eq_true, if_false]
    omega

/-- So does reading the order, which names at most so many authorizations. -/
theorem lighter_readOrder (h : flow.readOrder lib answer = .ok flow') (hpolls : flow.polls ≤ mostPolls)
    (hcount : authorizationCount lib answer ≤ n) (hstage : flow.stage = .order) :
    Lighter lib n answer flow flow' := by
  have hweight : weight n flow = 2 * n + (mostPolls + 1 - flow.polls) + 1 := by rw [weight, hstage]
  simp only [Flow.readOrder, bind_eq_ok] at h
  obtain ⟨value, hparse, order, -, finalize, -, waiting, hwaiting, h⟩ := h
  have hlength := length_authorizations hparse hwaiting hcount
  obtain rfl := Except.ok.inj h
  refine .of_lt hpolls hweight ?_
  rw [weight_afterwards rfl]
  dsimp only
  omega

/-- So does reading an order that is resumed. -/
theorem lighter_readResumed (h : flow.readResumed lib answer = .ok flow')
    (hpolls : flow.polls ≤ mostPolls) (hcount : authorizationCount lib answer ≤ n)
    (hstage : flow.stage = .resume) : Lighter lib n answer flow flow' := by
  have hweight : weight n flow = 2 * n + (mostPolls + 1 - flow.polls) + 1 := by rw [weight, hstage]
  simp only [Flow.readResumed, bind_eq_ok] at h
  obtain ⟨value, hparse, finalize, -, waiting, hwaiting, h⟩ := h
  have hlength := length_authorizations hparse hwaiting hcount
  split at h
  · obtain ⟨certificate, -, h⟩ := bind_eq_ok.mp h
    obtain rfl := Except.ok.inj h
    refine .of_lt hpolls hweight ?_
    simp only [weight]
    omega
  · rename_i hready
    obtain rfl := Except.ok.inj h
    refine ⟨hpolls, fun _ => ?_⟩
    rw [hweight, worth_of_ready hparse hready]
    simp only [weight]
    omega
  · obtain rfl := Except.ok.inj h
    refine .of_lt hpolls hweight ?_
    rw [weight_afterwards rfl]
    dsimp only
    omega
  · obtain rfl := Except.ok.inj h
    refine .of_lt hpolls hweight ?_
    simp only [weight]
    omega
  · cases h
  · cases h

/-- So does reading an authorization. -/
theorem lighter_readAuthorization (h : flow.readAuthorization lib answer = .ok flow')
    (hpolls : flow.polls ≤ mostPolls) (hsome : flow.next.isSome) (hstage : flow.stage = .authorization) :
    Lighter lib n answer flow flow' := by
  have hweight : weight n flow = 2 * flow.waiting.length + (mostPolls + 1 - flow.polls) := by
    rw [weight, hstage]
  -- the authorization that was asked for is one of those left
  have hlength : flow.waiting.tail.length + 1 = flow.waiting.length := by
    rw [Flow.next, hstage] at hsome
    cases hwaiting : flow.waiting with
    | nil => simp [hwaiting] at hsome
    | cons url urls => rfl
  rw [Flow.readAuthorization] at h
  obtain ⟨value, -, h⟩ := bind_eq_ok.mp h
  dsimp only at h
  split at h
  · obtain rfl := Except.ok.inj h
    refine .of_lt hpolls hweight ?_
    rw [weight_afterwards rfl]
    dsimp only
    omega
  · simp only [bind_eq_ok] at h
    obtain ⟨challenges, -, challenge, -, token, -, -, -, published, -, url, -, h⟩ := h
    obtain rfl := Except.ok.inj h
    refine .of_lt hpolls hweight ?_
    simp only [weight]
    omega

/-- An order that is read is decided on, or read once more, or ready. -/
theorem lighter_readProgress (h : flow.readProgress lib answer = .ok flow')
    (hpolls : flow.polls ≤ mostPolls) (hstage : flow.stage = .poll) :
    Lighter lib n answer flow flow' := by
  have hweight : weight n flow = mostPolls + 1 - flow.polls := by rw [weight, hstage]
  have hagain (hfew : ¬ mostPolls < flow.polls + 1) :
      Lighter lib n answer flow { flow with polls := flow.polls + 1, stage := .poll } := by
    refine ⟨not_lt.mp hfew, fun _ => ?_⟩
    rw [hweight]
    simp only [weight]
    omega
  rw [Flow.readProgress] at h
  obtain ⟨value, hparse, h⟩ := bind_eq_ok.mp h
  split at h
  · obtain ⟨certificate, -, h⟩ := bind_eq_ok.mp h
    obtain rfl := Except.ok.inj h
    refine .of_lt hpolls hweight ?_
    simp only [weight]
    omega
  · rename_i hready
    obtain rfl := Except.ok.inj h
    refine ⟨hpolls, fun _ => ?_⟩
    rw [hweight, worth_of_ready hparse hready]
    simp only [weight]
    omega
  · split at h
    · cases h
    · rename_i hfew
      obtain rfl := Except.ok.inj h
      exact hagain hfew
  · split at h
    · cases h
    · rename_i hfew
      obtain rfl := Except.ok.inj h
      exact hagain hfew
  · cases h
  · cases h

/-- Every answer that moves a flow on makes it lighter, but for those that say ready. -/
theorem lighter_readAnswer (h : flow.readAnswer lib answer = .ok flow') (hpolls : flow.polls ≤ mostPolls)
    (hsome : flow.next.isSome) (hcount : authorizationCount lib answer ≤ n) :
    Lighter lib n answer flow flow' := by
  rw [Flow.readAnswer] at h
  split at h <;> rename_i hstage
  · exact lighter_readDirectory h hpolls hstage
  · obtain rfl := Except.ok.inj h
    refine ⟨hpolls, fun _ => ?_⟩
    simp only [weight, hstage]
    omega
  · exact lighter_readAccount h hpolls hstage
  · exact lighter_readOrder h hpolls hcount hstage
  · exact lighter_readResumed h hpolls hcount hstage
  · exact lighter_readAuthorization h hpolls hsome hstage
  · obtain rfl := Except.ok.inj h
    refine ⟨hpolls, fun _ => ?_⟩
    rw [weight_afterwards rfl]
    simp only [weight, hstage]
    omega
  · exact lighter_readProgress h hpolls hstage
  · -- a signing request that was handed over is followed by as many reads as a fresh order's
    have hread : Lighter lib n answer { flow with polls := 0, stage := .poll } flow' :=
      lighter_readProgress h (Nat.zero_le _) rfl
    refine ⟨hread.polls, fun hdone => ?_⟩
    have hless := hread.weight hdone
    simp only [weight, hstage] at hless ⊢
    exact hless
  · split at h
    · cases h
    · obtain rfl := Except.ok.inj h
      exact ⟨hpolls, fun hdone => absurd rfl hdone⟩
  · rw [Flow.next, hstage] at hsome
    cases hsome

end

/-! ## A whole attempt -/

section

variable {lib} {Key W : Type} {keys : Keys Key} {account : Key}
  {record : Reached → W → Except Failure Unit × W} {n : ℕ}

/-- The answers that are left name no more than all of them. -/
theorem NamesAtMost.tail {reply : Except Failure Reply} {left : Replies}
    (h : NamesAtMost lib n (reply :: left)) : NamesAtMost lib n left :=
  fun reply hreply => h reply (List.mem_cons_of_mem _ hreply)

theorem readies_cons (reply : Reply) (left : Replies) :
    (mostPolls + 1) * readies lib (.ok reply :: left) =
      worth lib reply.answer + (mostPolls + 1) * readies lib left := by
  rw [readies, List.countP_cons, ← readies, worth]
  by_cases hready : saysReady lib reply.answer = true
  · rw [if_pos hready, if_pos (by simpa [Except.toOption] using hready)]
    rw [Nat.mul_add, Nat.mul_one, Nat.add_comm]
  · rw [if_neg hready, if_neg (by simpa [Except.toOption] using hready)]
    simp only [Nat.add_zero, Nat.zero_add]

/-- The answers that an attempt can still take in while it stays open, where the server says ready no
more than so often. -/
def remaining (n : ℕ) (driving : Driving) (ready : ℕ) : ℕ :=
  (mostNonceRetries + 1) * (weight n driving.flow + (mostPolls + 1) * ready) +
    (mostNonceRetries - driving.rejected)

/-- An answer uses up one of those that remain. -/
theorem remaining_answered {driving driving' : Driving} {reply : Reply} (left : Replies)
    (hanswered : answered lib driving reply = .ok driving') (hpolls : driving.flow.polls ≤ mostPolls)
    (hsome : driving.flow.next.isSome) (hcount : authorizationCount lib reply.answer ≤ n) :
    driving'.flow.polls ≤ mostPolls ∧ (driving'.flow.stage ≠ .done →
      remaining n driving' (readies lib left) + 1 ≤
        remaining n driving (readies lib (.ok reply :: left))) := by
  rw [remaining, remaining, readies_cons]
  rcases flow_answered hanswered with ⟨hflow, hrejected, hfew⟩ | ⟨hread, hrejected⟩
  · refine ⟨hflow ▸ hpolls, fun _ => ?_⟩
    rw [hflow]
    have hmore : weight n driving.flow + (mostPolls + 1) * readies lib left ≤
        weight n driving.flow + (worth lib reply.answer + (mostPolls + 1) * readies lib left) := by
      omega
    have hscaled := Nat.mul_le_mul_left (mostNonceRetries + 1) hmore
    omega
  · have hlighter := lighter_readAnswer hread hpolls hsome hcount
    refine ⟨hlighter.polls, fun hdone => ?_⟩
    have hless : weight n driving'.flow + (mostPolls + 1) * readies lib left + 1 ≤
        weight n driving.flow + (worth lib reply.answer + (mostPolls + 1) * readies lib left) := by
      have hweight := hlighter.weight hdone
      omega
    have hscaled := Nat.mul_le_mul_left (mostNonceRetries + 1) hless
    rw [Nat.mul_add _ _ 1, Nat.mul_one] at hscaled
    rw [hrejected]
    omega

/-- While an attempt is open, the server has given no more answers than remained. -/
theorem length_le_remaining (replies : Replies) {driving : Driving} {world : W}
    (hpolls : driving.flow.polls ≤ mostPolls) (hnames : NamesAtMost lib n replies)
    (hopen : (drive lib keys account record replies driving world).outcome = none) :
    replies.length ≤ remaining n driving (readies lib replies) := by
  fun_induction drive lib keys account record replies driving world with
  | case1 replies driving world hnext => cases hopen
  | case2 replies driving world ask hnext failure noted world' hnote => cases hopen
  | case3 driving world ask hnext noted world' hnote failure replies hbody => cases hopen
  | case4 driving world ask hnext noted world' hnote body hbody => exact Nat.zero_le _
  | case5 driving world ask hnext noted world' hnote body failure left hbody => cases hopen
  | case6 driving world ask hnext noted world' hnote body reply left hbody failure hanswered =>
    cases hopen
  | case7 driving world ask hnext noted world' hnote body reply left hbody driving' hanswered ih =>
    obtain ⟨hflow, -, hrejected⟩ := note_eq hnote
    have hsome : noted.flow.next.isSome := by
      rw [hflow, hnext]
      rfl
    obtain ⟨hpolls', hless⟩ := remaining_answered left hanswered (hflow ▸ hpolls) hsome
      (hnames reply List.mem_cons_self)
    -- a flow that is done would have ended the attempt
    have hstage : driving'.flow.stage ≠ .done := by
      intro hdone
      rw [drive, Flow.next, hdone] at hopen
      cases hopen
    have hlength := ih hpolls' hnames.tail hopen
    have hsame : remaining n noted (readies lib (.ok reply :: left)) =
        remaining n driving (readies lib (.ok reply :: left)) := by
      rw [remaining, remaining, hflow, hrejected]
    rw [List.length_cons, ← hsame]
    exact (Nat.succ_le_succ hlength).trans (hless hstage)

end

/-! ## Any server -/

section

variable {Key W : Type} (keys : Keys Key) (account : Key)
  (record : Reached → W → Except Failure Unit × W) (world : W)

/-- Whether an attempt is still open after the answers a server has given. -/
def StaysOpen (flow : Flow) (replies : Replies) : Prop :=
  (drive lib keys account record replies ⟨flow, none, flow.reached, 0⟩ world).outcome = none

instance (flow : Flow) (replies : Replies) :
    Decidable (StaysOpen lib keys account record world flow replies) :=
  inferInstanceAs (Decidable (_ = none))

/-- How many answers an attempt takes in at most, for an order of so many authorizations that is said to
be ready so often. -/
def mostAnswers (authorizations ready : ℕ) : ℕ :=
  (mostNonceRetries + 1) * (2 * authorizations + (mostPolls + 1) * (ready + 1) + 4) + mostNonceRetries

theorem length_le_mostAnswers {settings : AcmeSettings} {names : List String} {kind : Challenge}
    {thumbprint csr : String} {resume : Option String} {n : ℕ} {replies : Replies}
    (hnames : NamesAtMost lib n replies)
    (hopen : StaysOpen lib keys account record world
      (attemptFlow settings names kind thumbprint csr resume) replies) :
    replies.length ≤ mostAnswers n (readies lib replies) := by
  have hfresh : (attemptFlow settings names kind thumbprint csr resume).stage = .directory ∧
      (attemptFlow settings names kind thumbprint csr resume).polls = 0 := by
    cases resume <;> exact ⟨rfl, rfl⟩
  have hpolls : (attemptFlow settings names kind thumbprint csr resume).polls ≤ mostPolls := by
    rw [hfresh.2]
    exact Nat.zero_le _
  have hlength := length_le_remaining replies hpolls hnames hopen
  rw [remaining, weight, hfresh.1, hfresh.2] at hlength
  dsimp only at hlength
  refine hlength.trans (Nat.add_le_add_right (Nat.mul_le_mul_left _ ?_) _)
  rw [Nat.mul_add (mostPolls + 1) _ 1]
  omega

/-- **An attempt ends exactly as long as the server says ready only so often.** Every answer but those
that say ready is bounded by the number of authorizations and the two constants. A server with which
attempts are open after any number of answers says that the order is ready any number of times. -/
theorem ends_iff_ready_bounded (settings : AcmeSettings) (names : List String) (kind : Challenge)
    (thumbprint csr : String) (resume : Option String) (n : ℕ) (server : Set Replies)
    (hserver : ∀ replies ∈ server, NamesAtMost lib n replies) :
    let flow := attemptFlow settings names kind thumbprint csr resume
    (∀ replies ∈ server, StaysOpen lib keys account record world flow replies →
      replies.length ≤ mostAnswers n (readies lib replies)) ∧
    ((∃ bound, ∀ replies ∈ server, StaysOpen lib keys account record world flow replies →
        replies.length ≤ bound) ↔
      ∃ ready, ∀ replies ∈ server, StaysOpen lib keys account record world flow replies →
        readies lib replies ≤ ready) := by
  intro flow
  have hbound (replies : Replies) (hreplies : replies ∈ server)
      (hopen : StaysOpen lib keys account record world flow replies) :
      replies.length ≤ mostAnswers n (readies lib replies) :=
    length_le_mostAnswers lib keys account record world (hserver replies hreplies) hopen
  refine ⟨hbound, fun ⟨bound, hlength⟩ => ⟨bound, fun replies hreplies hopen => ?_⟩,
    fun ⟨ready, hready⟩ => ⟨mostAnswers n ready, fun replies hreplies hopen => ?_⟩⟩
  · exact List.countP_le_length.trans (hlength replies hreplies hopen)
  · have hmore : (mostPolls + 1) * (readies lib replies + 1) ≤ (mostPolls + 1) * (ready + 1) :=
      Nat.mul_le_mul_left _ (Nat.succ_le_succ (hready replies hreplies hopen))
    have hscaled : mostAnswers n (readies lib replies) ≤ mostAnswers n ready :=
      Nat.add_le_add_right (Nat.mul_le_mul_left _ (by omega)) _
    exact (hbound replies hreplies hopen).trans hscaled

end

/-! ## A server that is never done -/

def directoryBody : String :=
  "\x7b\"newNonce\":\"https://ca.example/nonce\",\"newAccount\":\"https://ca.example/account\"," ++
    "\"newOrder\":\"https://ca.example/order\"\x7d"

def authorizationBody : String := "\x7b\"status\":\"valid\"\x7d"

def orderBody : String :=
  "\x7b\"status\":\"ready\",\"authorizations\":[\"https://ca.example/authorization/1\"]," ++
    "\"finalize\":\"https://ca.example/finalize/1\"\x7d"

/-- A parser for the documents below. -/
def reading : Libraries where
  fromStr body :=
    if body = directoryBody then .ok (.object [("newNonce", .string "https://ca.example/nonce"),
      ("newAccount", .string "https://ca.example/account"),
      ("newOrder", .string "https://ca.example/order")])
    else if body = authorizationBody then .ok (.object [("status", .string "valid")])
    else if body = orderBody then .ok (.object [("status", .string "ready"),
      ("authorizations", .array [.string "https://ca.example/authorization/1"]),
      ("finalize", .string "https://ca.example/finalize/1")])
    else .error "expected value at line 1 column 1"
  sha256 bytes := .ok (Sha256.sha256 bytes).toList
  encodeBlock _ := ""
  debug text := "\"" ++ text ++ "\""

/-- Keys that sign nothing. -/
def unsigned : Keys Unit where
  thumbprint _ := .ok "thumbprint"
  sign _ _ _ _ _ _ := .ok "\x7b\x7d"
  requestWith _ _ := .ok []
  toPem _ := .ok []
  fromPem _ := .ok ()
  https _ := .ok ()

/-- A recording that always succeeds. -/
def unrecorded (_ : Reached) (world : Unit) : Except Failure Unit × Unit := (.ok (), world)

def ca : AcmeSettings := ⟨"https://ca.example/directory", "", true, ""⟩

def oneName : Flow := attemptFlow ca ["a.example"] .http01 "thumbprint" "csr" none

/-- An order that stays ready, also behind its signing request. -/
def stillReady : Except Failure Reply := .ok ⟨⟨200, orderBody, none⟩, some "nonce"⟩

/-- The way to the signing request of an order whose one authorization is valid already. -/
def upToFinalize : Replies := [
  .ok ⟨⟨200, directoryBody, none⟩, none⟩,
  .ok ⟨⟨200, "", none⟩, some "nonce"⟩,
  .ok ⟨⟨201, "", some "https://ca.example/account/1"⟩, some "nonce"⟩,
  .ok ⟨⟨201, orderBody, some "https://ca.example/order/1"⟩, some "nonce"⟩,
  .ok ⟨⟨200, authorizationBody, none⟩, some "nonce"⟩,
  stillReady]

def finalizing : Driving :=
  let flow := { oneName with
    directory := ⟨"https://ca.example/nonce", "https://ca.example/account", "https://ca.example/order"⟩
    account := some "https://ca.example/account/1"
    order := some "https://ca.example/order/1"
    finalize := some "https://ca.example/finalize/1"
    stage := .finalize }
  ⟨flow, some "nonce", flow.reached, 0⟩

/-- The first answers bring the flow to where the order is finalized. -/
theorem drive_upToFinalize (left : Replies) :
    drive reading unsigned () unrecorded (upToFinalize ++ left) ⟨oneName, none, oneName.reached, 0⟩ () =
      drive reading unsigned () unrecorded left finalizing () := by
  rfl

/-- An answer that the order is ready leaves the flow where it is. -/
theorem drive_stillReady (left : Replies) :
    drive reading unsigned () unrecorded (stillReady :: left) finalizing () =
      drive reading unsigned () unrecorded left finalizing () := by
  rfl

/-- However often it is told so, the flow does not end. -/
theorem open_stillReady (count : ℕ) :
    (drive reading unsigned () unrecorded (List.replicate count stillReady) finalizing ()).outcome =
      none := by
  induction count with
  | zero => rfl
  | succ count ih => rw [List.replicate_succ, drive_stillReady, ih]

theorem namesAtMost_stillReady (count : ℕ) :
    NamesAtMost reading 1 (upToFinalize ++ List.replicate count stillReady) := by
  intro reply hreply
  rcases List.mem_append.mp hreply with hreply | hreply
  · simp only [upToFinalize, stillReady, List.mem_cons, Except.ok.injEq, List.not_mem_nil,
      or_false] at hreply
    obtain rfl | rfl | rfl | rfl | rfl | rfl := hreply <;> decide +kernel
  · obtain rfl := Except.ok.inj (List.eq_of_mem_replicate hreply)
    decide +kernel

/-- A server that says ready once, before the signing request, lets the attempt end. -/
theorem ready_once_bounded :
    StaysOpen reading unsigned () unrecorded () oneName upToFinalize ∧
      ∃ bound, ∀ replies ∈ ({upToFinalize} : Set Replies),
        StaysOpen reading unsigned () unrecorded () oneName replies → replies.length ≤ bound := by
  have hserver : ∀ replies ∈ ({upToFinalize} : Set Replies), NamesAtMost reading 1 replies := by
    intro replies hreplies
    rw [Set.mem_singleton_iff.mp hreplies, ← List.append_nil upToFinalize]
    exact namesAtMost_stillReady 0
  obtain ⟨-, hends⟩ := ends_iff_ready_bounded reading unsigned () unrecorded () ca ["a.example"] .http01
    "thumbprint" "csr" none 1 {upToFinalize} hserver
  refine ⟨rfl, hends.mpr ⟨2, fun replies hreplies _ => ?_⟩⟩
  rw [Set.mem_singleton_iff.mp hreplies]
  decide +kernel

/-- An order that is ready again behind its signing request is handed it again, without end. -/
theorem ready_holds_open :
    ¬ ∃ bound : ℕ → ℕ, ∀ n replies, NamesAtMost reading n replies →
      StaysOpen reading unsigned () unrecorded () oneName replies → replies.length ≤ bound n := by
  rintro ⟨bound, hbound⟩
  have hopen : StaysOpen reading unsigned () unrecorded () oneName
      (upToFinalize ++ List.replicate (bound 1) stillReady) := by
    rw [StaysOpen, drive_upToFinalize]
    exact open_stillReady (bound 1)
  have hlength := hbound 1 _ (namesAtMost_stillReady (bound 1)) hopen
  rw [List.length_append, List.length_replicate] at hlength
  have hsix : upToFinalize.length = 6 := rfl
  omega

end EkEk.Tls
