import PushDeliveredQueue.Verdicts

/-!
# Enqueueing many messages

`EnqueueXMessages` asks for the state once and then enqueues one message after the other, each under
a lock of its own; anything may happen in between, other requests included. What a request can count
on is `PushDeliveredQueue.requests_served`: its messages come one after the other in the order of
the buffer, though not side by side, no other request is given any of them, and their payloads are
consecutive numbers from the size the buffer had when the request came in. None of them is a message
that fails.
-/

namespace PushDeliveredQueue

open Transitions SubscribedMessageHandler

/-! ### The payloads -/

/-- A number does not contain `fail`. -/
theorem containsFail_intText (k : ℤ) : containsFail (intText k) = false := by
  have hf : 'f' ∉ (intText k).toList := by
    rw [intText, String.toList_ofList]
    intro hmem
    rcases List.mem_append.mp hmem with hmem | hmem
    · split_ifs at hmem <;> simp at hmem
    · have hdigit := Nat.isDigit_of_mem_toDigits (by decide) (by decide) hmem
      revert hdigit
      decide
  rw [containsFail, decide_eq_false_iff_not]
  exact fun h => hf (h.subset (by simp))

/-! ### Serving the requests -/

/-- What a request has come to: its messages are known and come in the order of their enqueueing,
and those that have not been edited have the numbers of the request. -/
structure Served (evs : List Event) (edited : Guid → Prop) (ω : Service) (r : EnqueueRequest) :
    Prop where
  count : r.messageIds.length ≤ r.count
  sublist : r.messageIds.Sublist ((enqueuedOf evs).map (·.id))
  payloads : ∀ i id, r.messageIds[i]? = some id → ¬ edited id →
    ω.system.queue.payloads id = some (intText (addInt r.currentMessageCount i))

/-- The payload of a message has been changed, by a request that found the message. -/
def Edited (tr : ServiceTrace) (id : Guid) : Prop :=
  ∃ t ∈ tr, (∃ text, t.act = .changePayload id text) ∧
    ∃ m ∈ t.pre.system.queue.buffer, m.id = id

/-- An edit of a payload. -/
def ServiceAction.edits : ServiceAction → Bool
  | .changePayload _ _ => true
  | _ => false

theorem not_edited_of_all {tr : ServiceTrace} {id : Guid} (h : tr.all (!·.act.edits) = true) :
    ¬ Edited tr id := by
  rintro ⟨t, ht, ⟨text, ha⟩, -⟩
  have hno := List.all_eq_true.mp h t ht
  simp [ha, ServiceAction.edits] at hno

section Requests

variable {ω ω' : Service} {a : ServiceAction} {evs : List Event} {ttl : TimeSpan} {n : ℕ}
  {tr : ServiceTrace} {r : EnqueueRequest} {k : ℕ}

/-- What a transition does to a request: nothing, or the request has just come in, or its next
message is enqueued. -/
theorem requests_of_step (hs : serviceStep ω a = some (ω', evs)) (hr : ω'.requests[k]? = some r) :
    ω.requests[k]? = some r ∨ r.messageIds = [] ∨ ∃ id utcNow r₀, a = .enqueueNext k id utcNow ∧
      ω.requests[k]? = some r₀ ∧ r₀.messageIds.length < r₀.count ∧
      r = { r₀ with messageIds := r₀.messageIds ++ [id] } ∧
      step ω.system (.enqueue id utcNow (some r₀.payload)) = some (ω'.system, evs) := by
  rcases serviceStep_cases hs with ⟨b, hb, hstep, -, hreq⟩ | ⟨count, -, -, -, -, hreq⟩
  · rw [hreq] at hr
    cases a with
    | enqueueNext k' id utcNow =>
      simp only [Service.requestsAfter, List.getElem?_modify] at hr
      split_ifs at hr with hk
      · subst hk
        obtain ⟨r₀, hr₀, rfl⟩ := Option.map_eq_some_iff.mp hr
        simp only [Service.act, hr₀] at hb
        split_ifs at hb with hlt
        obtain rfl := Option.some.inj hb
        exact Or.inr (Or.inr ⟨id, utcNow, r₀, rfl, hr₀, hlt, rfl, hstep⟩)
      · exact Or.inl (by simpa using hr)
    | _ => exact Or.inl hr
  · rcases hreq with ⟨-, hreq⟩ | ⟨-, hreq⟩
    · exact Or.inl (hreq ▸ hr)
    · rw [hreq, List.getElem?_append] at hr
      split_ifs at hr with hlt
      · exact Or.inl hr
      · rw [List.getElem?_singleton] at hr
        split_ifs at hr
        obtain rfl := Option.some.inj hr
        exact Or.inr (Or.inl rfl)

/-- The messages of a request are known. -/
theorem Served.mem_messageIds (hrun : ServiceRun ttl n tr ω)
    (h : Served (events tr) (Edited tr) ω r) {id : Guid} (hid : id ∈ r.messageIds) :
    id ∈ ω.system.messageIds := by
  obtain ⟨hsysrun, hevents⟩ := systemRun_of_run hrun
  obtain ⟨m, hm, rfl⟩ := List.mem_map.mp (h.sublist.subset hid)
  exact idsUsed_of_run hsysrun m (hevents ▸ hm)

/-- The payloads of known messages that have not been edited stay. -/
theorem payloads_of_step (hs : serviceStep ω a = some (ω', evs)) {id : Guid}
    (hid : id ∈ ω.system.messageIds)
    (hno : ∀ text, a = .changePayload id text → ¬ ∃ m ∈ ω.system.queue.buffer, m.id = id) :
    ω'.system.queue.payloads id = ω.system.queue.payloads id := by
  rcases serviceStep_cases hs with ⟨b, hb, hstep, -⟩ | ⟨-, -, -, hsys, -⟩
  · rcases (Service.payloads hb (effect_of_step hstep) hid).2 with hp | ⟨text, rfl, hin, -⟩
    · exact hp
    · exact absurd hin (hno text rfl)
  · rw [hsys]

/-- **One transition keeps the requests served.** -/
theorem Served.step (hrun : ServiceRun ttl n tr ω) (hs : serviceStep ω a = some (ω', evs))
    (hall : ∀ (k : ℕ) (r : EnqueueRequest), ω.requests[k]? = some r →
      Served (events tr) (Edited tr) ω r)
    (hr : ω'.requests[k]? = some r) :
    Served (events tr ++ evs) (Edited (tr ++ [⟨ω, a, evs, ω'⟩])) ω' r := by
  have hold : ∀ r, Served (events tr) (Edited tr) ω r →
      Served (events tr ++ evs) (Edited (tr ++ [⟨ω, a, evs, ω'⟩])) ω' r := by
    rintro r h
    refine ⟨h.count, h.sublist.trans ?_, fun i id hi hno => ?_⟩
    · rw [enqueuedOf_append, List.map_append]
      exact List.sublist_append_left _ _
    · have hid := h.mem_messageIds hrun (List.mem_of_getElem? hi)
      rw [payloads_of_step hs hid fun text ha hin =>
        hno ⟨_, List.mem_append_right _ (List.mem_singleton.mpr rfl), ⟨text, ha⟩, hin⟩]
      refine h.payloads i id hi fun ⟨t, ht, hedit⟩ => ?_
      exact hno ⟨t, List.mem_append_left _ ht, hedit⟩
  rcases requests_of_step hs hr with hr | hempty | ⟨id, utcNow, r₀, -, hr₀, hlt, rfl, hstep⟩
  · exact hold r (hall k r hr)
  · refine ⟨by simp [hempty], by simp [hempty], fun i id hi => ?_⟩
    simp [hempty] at hi
  · -- its next message is enqueued, the last one so far
    have h := hold r₀ (hall k r₀ hr₀)
    have heff := effect_of_step hstep
    generalize hσ : ω'.system = σ' at heff
    cases heff with
    | enqueue hnew =>
      refine ⟨?_, ?_, fun i id' hi hno => ?_⟩
      · simp only [List.length_append, List.length_singleton]
        omega
      · have hbefore := (hall k r₀ hr₀).sublist
        rw [enqueuedOf_append, List.map_append]
        exact hbefore.append (List.Sublist.refl _)
      · rw [List.getElem?_append] at hi
        split_ifs at hi with hi'
        · exact h.payloads i id' hi hno
        · rw [List.getElem?_singleton] at hi
          split_ifs at hi with hlast
          obtain rfl := Option.some.inj hi
          have hi : i = r₀.messageIds.length := by omega
          rw [hσ, hi]
          simp [SubscribableQueue.enqueue, EnqueueRequest.payload]

theorem served_of_run (h : ServiceRun ttl n tr ω) (hr : ω.requests[k]? = some r) :
    Served (events tr) (Edited tr) ω r := by
  revert k r
  refine h.invariant (I := fun tr ω => ∀ {k : ℕ} {r : EnqueueRequest},
    ω.requests[k]? = some r → Served (events tr) (Edited tr) ω r) (by simp [Service.init]) ?_
  intro tr ω a evs ω' hrun hi hs k r hr
  simpa using Served.step hrun hs (fun k r hr => hi hr) hr

/-- No message belongs to two requests. -/
theorem disjoint_requests (h : ServiceRun ttl n tr ω) {k' : ℕ} {r' : EnqueueRequest}
    (hne : k ≠ k') (hr : ω.requests[k]? = some r) (hr' : ω.requests[k']? = some r') :
    r.messageIds.Disjoint r'.messageIds := by
  revert k k' r r'
  refine h.invariant (I := fun _ ω => ∀ {k : ℕ} {r : EnqueueRequest} {k' : ℕ}
    {r' : EnqueueRequest}, k ≠ k' → ω.requests[k]? = some r → ω.requests[k']? = some r' →
      r.messageIds.Disjoint r'.messageIds) (by simp [Service.init]) ?_
  intro tr ω a evs ω' hrun hi hs k r k' r' hne hr hr'
  -- a new message is not one of the other request, whose messages are known
  have hnew : ∀ {k : ℕ} {r₀ r₁ : EnqueueRequest} {id : Guid} {utcNow : DateTime} {p : Payload},
      r₀.messageIds.Disjoint r₁.messageIds → ω.requests[k]? = some r₁ →
      step ω.system (.enqueue id utcNow p) = some (ω'.system, evs) →
      (r₀.messageIds ++ [id]).Disjoint r₁.messageIds := by
    intro k r₀ r₁ id utcNow p hdisj hr₁ hstep
    have hfresh : id ∉ ω.system.messageIds := by
      have heff := effect_of_step hstep
      generalize ω'.system = σ' at heff
      cases heff with
      | enqueue hfresh => exact hfresh
    rw [List.disjoint_append_left]
    refine ⟨hdisj, List.singleton_disjoint.mpr fun hid => hfresh ?_⟩
    exact (served_of_run hrun hr₁).mem_messageIds hrun hid
  rcases requests_of_step hs hr with hr | hempty | ⟨id, utcNow, r₀, ha, hr₀, -, rfl, hstep⟩
  · rcases requests_of_step hs hr' with hr' | hempty | ⟨id, utcNow, r₀, -, hr₀, -, rfl, hstep⟩
    · exact hi hne hr hr'
    · simp [hempty]
    · exact (hnew (hi hne.symm hr₀ hr) hr hstep).symm
  · simp [hempty]
  · rcases requests_of_step hs hr' with hr' | hempty | ⟨id', utcNow', r₀', ha', -⟩
    · exact hnew (hi hne hr₀ hr') hr' hstep
    · simp [hempty]
    · obtain ⟨rfl, -⟩ := by simpa using ha.symm.trans ha'
      exact absurd rfl hne

/-- **What a request of `EnqueueXMessages` can count on**, whatever happens while it is served: its
messages are in the buffer's order, all different, and no other request's; those that have not been
edited have consecutive numbers for their payloads, from the size the buffer had, and the handler
does not fail them; and as long as there are fewer than asked for, the next one can be enqueued. -/
theorem requests_served (h : ServiceRun ttl n tr ω) (hr : ω.requests[k]? = some r) :
    r.messageIds.length ≤ r.count ∧
      r.messageIds.Sublist ((enqueuedOf (events tr)).map (·.id)) ∧ r.messageIds.Nodup ∧
      (∀ k' r', k ≠ k' → ω.requests[k']? = some r' → r.messageIds.Disjoint r'.messageIds) ∧
      (∀ i id, r.messageIds[i]? = some id → ¬ Edited tr id →
        ω.system.queue.payloads id = some (intText (addInt r.currentMessageCount i)) ∧
          ∀ utcNow, ω.system.failing ⟨id, utcNow⟩ = false) ∧
      (r.messageIds.length < r.count →
        ∀ id utcNow, id ∉ ω.system.messageIds →
          (serviceStep ω (.enqueueNext k id utcNow)).isSome) := by
  obtain ⟨hsysrun, hevents⟩ := systemRun_of_run h
  have hserved := served_of_run h hr
  have hdistinct := (ledger_of_run hsysrun).distinct
  rw [hevents] at hdistinct
  refine ⟨hserved.count, hserved.sublist, hdistinct.sublist hserved.sublist,
    fun k' r' hne hr' => disjoint_requests h hne hr hr', fun i id hi hno => ?_,
    fun hlt id t hid => ?_⟩
  · have hp := hserved.payloads i id hi hno
    refine ⟨hp, fun utcNow => ?_⟩
    rw [System.failing, hp, fails, Option.any_some, containsFail_intText]
  · refine serviceStep_isSome (a := .enqueue id t (some r.payload)) ?_ ?_
    · simp [Service.act, hr, hlt]
    · simp [step, hid]

/-- The theorem at two requests that overlap. -/
theorem requests_served_overlapping : ∃ tr ω, ServiceRun 5 0 tr ω ∧
    enqueuedOf (events tr) = [⟨1, 10⟩, ⟨2, 11⟩, ⟨3, 12⟩, ⟨4, 13⟩] ∧
    ω.requests[0]? = some ⟨0, 2, [1, 3]⟩ ∧ ω.requests[1]? = some ⟨1, 2, [2, 4]⟩ ∧
    ω.system.queue.payloads 4 = some "2" := by
  have h := serviceRun_exec 5 0 [.enqueueMultiple 2, .enqueueNext 0 1 10, .enqueueMultiple 2,
    .enqueueNext 1 2 11, .enqueueNext 0 3 12, .enqueueNext 1 4 13] (by decide)
  refine ⟨_, _, h, by decide, by decide, by decide, ?_⟩
  have hserved := (requests_served (k := 1) (r := ⟨1, 2, [2, 4]⟩) h (by decide)).2.2.2.2.1 1 4 rfl
  exact (hserved (not_edited_of_all (by decide))).1

end Requests

end PushDeliveredQueue
