import EtherDog.Control.Framing

/-!
# What a client may have done (src/control.c)

`Disciplined` is the protocol a connection follows where a token is required,
written on what the server did for it: a stranger becomes trusted by a hello
with the token, only the trusted get anything carried out, and a line against
the rules is answered by one error and the end of the connection.
`service_client` follows it.
-/

set_option autoImplicit false

namespace EtherDog

open CString Framing

inductive Standing where
  | stranger
  | trusted
  | gone
  deriving DecidableEq, Repr

section Protocol
variable {World : Type} (svc : Services World) (secret : Text)

inductive Disciplined : Standing → List ClientEvent → Prop where
  | accepted : Disciplined .stranger []
  | hello {standing : Standing} {trace : List ClientEvent} {line : Text}
      (before : Disciplined standing trace) (here : standing ≠ .gone)
      (good : HelloWith svc secret line) :
      Disciplined .trusted (trace ++ [.handled line none, .sent helloResponse])
  | executed {trace : List ClientEvent} {line reply : Text} {command : Command}
      (before : Disciplined .trusted trace)
      (other : commandOf svc line ≠ some (text "hello")) :
      Disciplined .trusted (trace ++ [.handled line (some command), .sent reply])
  | refused {standing : Standing} {trace : List ClientEvent} {line reply : Text}
      (before : Disciplined standing trace) (here : standing ≠ .gone)
      (bad : WrongHello svc secret line ∨
        (standing = .stranger ∧ commandOf svc line ≠ some (text "hello")))
      (error : reply = authenticationFailed ∨ reply = authenticateFirst) :
      Disciplined .gone (trace ++ [.handled line none, .sent reply, .dropped])
  | tooLong {standing : Standing} {trace : List ClientEvent}
      (before : Disciplined standing trace) (here : standing ≠ .gone) :
      Disciplined .gone (trace ++ [.tooLong, .sent lineTooLong, .dropped])
  | left {standing : Standing} {trace : List ClientEvent}
      (before : Disciplined standing trace) (here : standing ≠ .gone) :
      Disciplined .gone (trace ++ [.dropped])

def ClientEvent.isHandled : ClientEvent → Bool
  | .handled _ _ => true
  | _ => false

/-- Commands are carried out only behind a hello with the token; the first line,
if it is anything else, and every wrong hello are the last thing of a connection
but for one error. -/
structure TokenEnforced (trace : List ClientEvent) : Prop where
  after_hello : ∀ before line command after,
    trace = before ++ .handled line (some command) :: after →
      ∃ hello, ClientEvent.handled hello none ∈ before ∧ HelloWith svc secret hello
  rejected_last : ∀ before line executed after,
    trace = before ++ .handled line executed :: after →
      WrongHello svc secret line ∨
        ((∀ event ∈ before, event.isHandled = false) ∧ ¬ HelloWith svc secret line) →
      executed = none ∧ (after = [.sent authenticationFailed, .dropped] ∨
        after = [.sent authenticateFirst, .dropped])

variable {svc secret} {standing : Standing} {trace : List ClientEvent}

/-! ## What follows from the discipline -/

theorem Disciplined.not_dropped (disciplined : Disciplined svc secret standing trace)
    (here : standing ≠ .gone) : ClientEvent.dropped ∉ trace := by
  induction disciplined with
  | accepted => exact List.not_mem_nil
  | hello before still good ih =>
      intro member
      rcases List.mem_append.mp member with early | late
      · exact ih still early
      · simp at late
  | executed before other ih =>
      intro member
      rcases List.mem_append.mp member with early | late
      · exact ih (by decide) early
      · simp at late
  | refused before still bad error ih => exact absurd rfl here
  | tooLong before still ih => exact absurd rfl here
  | left before still ih => exact absurd rfl here

theorem Disciplined.trusted_hello (disciplined : Disciplined svc secret standing trace)
    (trusted : standing = .trusted) :
    ∃ hello, ClientEvent.handled hello none ∈ trace ∧ HelloWith svc secret hello := by
  induction disciplined with
  | hello before here good ih => exact ⟨_, List.mem_append_right _ List.mem_cons_self, good⟩
  | executed before other ih =>
      obtain ⟨hello, member, good⟩ := ih rfl
      exact ⟨hello, List.mem_append_left _ member, good⟩
  | _ => contradiction

/-- An event of an extended trace is an earlier one or one of the new ones. -/
theorem split_append {α : Type} {xs ys before after : List α} {a : α}
    (split : xs ++ ys = before ++ a :: after) :
    (∃ rest, xs = before ++ a :: rest ∧ after = rest ++ ys) ∨
      ∃ skipped, before = xs ++ skipped ∧ ys = skipped ++ a :: after := by
  rcases List.append_eq_append_iff.mp split with ⟨skipped, early, late⟩ | ⟨rest, early, late⟩
  · exact Or.inr ⟨skipped, early, late⟩
  · cases rest with
    | nil =>
        refine Or.inr ⟨[], by simpa using early.symm, by simpa using late.symm⟩
    | cons head rest =>
        rw [List.cons_append, List.cons.injEq] at late
        obtain ⟨rfl, rfl⟩ := late
        exact Or.inl ⟨rest, early, rfl⟩

section Extend
variable (earlier : TokenEnforced svc secret trace) (clean : ClientEvent.dropped ∉ trace)
include earlier clean

/-- Before the connection is dropped no line is rejected. -/
theorem TokenEnforced.not_rejected {before rest : List ClientEvent} {line : Text}
    {executed : Option Command} (split : trace = before ++ .handled line executed :: rest) :
    ¬ (WrongHello svc secret line ∨
      ((∀ event ∈ before, event.isHandled = false) ∧ ¬ HelloWith svc secret line)) := by
  intro rejected
  apply clean
  rw [split]
  refine List.mem_append_right _ (List.mem_cons_of_mem _ ?_)
  rcases (earlier.rejected_last before line executed rest split rejected).2 with last | last
  · rw [last]
    exact List.mem_cons_of_mem _ List.mem_cons_self
  · rw [last]
    exact List.mem_cons_of_mem _ List.mem_cons_self

theorem TokenEnforced.quiet {new : List ClientEvent}
    (quiet : ∀ event ∈ new, event.isHandled = false) : TokenEnforced svc secret (trace ++ new) := by
  have apart : ∀ {skipped after : List ClientEvent} {line : Text} {executed : Option Command},
      new ≠ skipped ++ .handled line executed :: after := by
    rintro skipped after line executed rfl
    simpa [ClientEvent.isHandled] using
      quiet _ (List.mem_append_right skipped List.mem_cons_self)
  constructor
  · intro before line command after split
    rcases split_append split with ⟨rest, early, _⟩ | ⟨skipped, _, late⟩
    · exact earlier.after_hello before line command rest early
    · exact absurd late apart
  · intro before line executed after split rejected
    rcases split_append split with ⟨rest, early, _⟩ | ⟨skipped, _, late⟩
    · exact absurd rejected (earlier.not_rejected clean early)
    · exact absurd late apart

/-- One more line: carried out behind a hello, or rejected as the last thing. -/
theorem TokenEnforced.line {line : Text} {executed : Option Command} {new : List ClientEvent}
    (quiet : ∀ event ∈ new, event.isHandled = false)
    (allowed : executed ≠ none →
      ∃ hello, ClientEvent.handled hello none ∈ trace ∧ HelloWith svc secret hello)
    (last : WrongHello svc secret line ∨
        ((∀ event ∈ trace, event.isHandled = false) ∧ ¬ HelloWith svc secret line) →
      executed = none ∧ (new = [.sent authenticationFailed, .dropped] ∨
        new = [.sent authenticateFirst, .dropped])) :
    TokenEnforced svc secret (trace ++ .handled line executed :: new) := by
  have here : ∀ {skipped after : List ClientEvent} {line' : Text} {executed' : Option Command},
      ClientEvent.handled line executed :: new = skipped ++ .handled line' executed' :: after →
        skipped = [] ∧ line = line' ∧ executed = executed' ∧ new = after := by
    intro skipped after line' executed' late
    cases skipped with
    | nil =>
        rw [List.nil_append, List.cons.injEq, ClientEvent.handled.injEq] at late
        exact ⟨rfl, late.1.1, late.1.2, late.2⟩
    | cons head others =>
        rw [List.cons_append, List.cons.injEq] at late
        have silent := quiet (.handled line' executed')
          (late.2 ▸ List.mem_append_right others List.mem_cons_self)
        simp [ClientEvent.isHandled] at silent
  constructor
  · intro before line' command after split
    rcases split_append split with ⟨rest, early, _⟩ | ⟨skipped, rfl, late⟩
    · exact earlier.after_hello before line' command rest early
    · obtain ⟨rfl, rfl, rfl, rfl⟩ := here late
      rw [List.append_nil]
      exact allowed (Option.some_ne_none command)
  · intro before line' executed' after split rejected
    rcases split_append split with ⟨rest, early, _⟩ | ⟨skipped, rfl, late⟩
    · exact absurd rejected (earlier.not_rejected clean early)
    · obtain ⟨rfl, rfl, rfl, rfl⟩ := here late
      rw [List.append_nil] at rejected
      exact last rejected

end Extend

theorem Disciplined.enforced (disciplined : Disciplined svc secret standing trace) :
    TokenEnforced svc secret trace := by
  induction disciplined with
  | accepted => exact ⟨by simp, by simp⟩
  | hello before here good ih =>
      refine ih.line (before.not_dropped here) (by simp [ClientEvent.isHandled])
        (fun some => absurd rfl some) ?_
      rintro (wrong | ⟨_, bad⟩)
      · exact absurd good.2 wrong.2
      · exact absurd good bad
  | executed before other ih =>
      obtain ⟨hello, member, good⟩ := before.trusted_hello rfl
      refine ih.line (before.not_dropped (by decide)) (by simp [ClientEvent.isHandled])
        (fun _ => ⟨hello, member, good⟩) ?_
      rintro (wrong | ⟨first, _⟩)
      · exact absurd wrong.1 other
      · simpa [ClientEvent.isHandled] using first _ member
  | refused before here bad error ih =>
      refine ih.line (before.not_dropped here) (by simp [ClientEvent.isHandled])
        (fun some => absurd rfl some) (fun _ => ⟨rfl, ?_⟩)
      rcases error with rfl | rfl
      · exact Or.inl rfl
      · exact Or.inr rfl
  | tooLong before here ih =>
      exact ih.quiet (before.not_dropped here) (by simp [ClientEvent.isHandled])
  | left before here ih =>
      exact ih.quiet (before.not_dropped here) (by simp [ClientEvent.isHandled])

end Protocol

/-! ## The server follows it -/

def Client.standing (client : Client) : Standing :=
  if client.fd = none then .gone else if client.authenticated then .trusted else .stranger

section Follows
variable {World : Type} {svc : Services World} {secret : Text} (nonempty : secret ≠ [])
  {past : List ClientEvent}

theorem standing_connected {client : Client} (connected : client.fd ≠ none) :
    client.standing = if client.authenticated then .trusted else .stranger := by
  rw [Client.standing, if_neg connected]

theorem standing_ne_gone {client : Client} (connected : client.fd ≠ none) :
    client.standing ≠ .gone := by
  rw [standing_connected connected]
  split
  · decide
  · decide

theorem standing_authenticated {client : Client} (connected : client.fd ≠ none) :
    ({ client with authenticated := true } : Client).standing = .trusted := by
  have still : ({ client with authenticated := true } : Client).fd ≠ none := connected
  rw [standing_connected still]
  rfl

include nonempty

theorem handle_disciplined {serving : Serving World} (going : serving.done = false)
    (before : Disciplined svc secret serving.client.standing (past ++ serving.events))
    (raw : Text) :
    Disciplined svc secret (serving.handle svc (some secret) raw).client.standing
      (past ++ (serving.handle svc (some secret) raw).events) := by
  have connected : serving.client.fd ≠ none := by
    intro gone
    simp [Serving.done, gone] at going
  have here := standing_ne_gone connected
  have justified := judge_justified svc nonempty serving.client.authenticated (chomp raw)
  by_cases empty : chomp raw = []
  · rw [handle_empty serving empty]
    exact before
  · generalize found : judge svc (some secret) serving.client.authenticated (chomp raw) = verdict
      at justified
    obtain ⟨reply, one, events, client, _⟩ := handle_request serving empty found
    rw [events, ← List.append_assoc]
    cases verdict with
    | wrongToken =>
        rw [← List.singleton_inj.mp one, client]
        exact .refused before here (Or.inl justified) (Or.inl rfl)
    | hello =>
        have after : (serving.handle svc (some secret) raw).client =
            { serving.client with authenticated := true } := client
        rw [← List.singleton_inj.mp one, after, standing_authenticated connected]
        exact .hello before here justified
    | stranger =>
        rw [← List.singleton_inj.mp one, client]
        refine .refused before here (Or.inr ⟨?_, justified.2⟩) (Or.inr rfl)
        rw [standing_connected connected, justified.1]
        rfl
    | execute command =>
        obtain ⟨trusted, other⟩ := justified
        have after : (serving.handle svc (some secret) raw).client =
            { serving.client with authenticated := serving.client.authenticated } := client
        rw [standing_connected connected, trusted] at before
        rw [after, trusted, standing_authenticated connected]
        exact .executed before other

/-- A call of `service_client` on a slot in use. -/
theorem serviceClient_disciplined {serving : Serving World} (going : serving.done = false)
    (before : Disciplined svc secret serving.client.standing (past ++ serving.events))
    (received : List UInt8) :
    Disciplined svc secret (serviceClient svc (some secret) serving received).client.standing
      (past ++ (serviceClient svc (some secret) serving received).events) := by
  have connected : serving.client.fd ≠ none := by
    intro gone
    simp [Serving.done, gone] at going
  by_cases silent : received = []
  · rw [serviceClient, if_pos silent]
    dsimp only [Serving.leave]
    rw [← List.append_assoc]
    exact .left before (standing_ne_gone connected)
  · have looped := @runUntil_invariant _ _ Serving.done (Serving.handle svc (some secret))
      (fun serving : Serving World =>
        Disciplined svc secret serving.client.standing (past ++ serving.events))
      serving.emptied before
      (fun _ raw running earlier => handle_disciplined nonempty running earlier raw)
      (bufferLines (serving.client.buf ++ received)).1
    rw [serviceClient, if_neg silent]
    dsimp only
    split
    · exact looped
    · rename_i still
      split
      · dsimp only [Serving.leave]
        rw [← List.append_assoc]
        exact .tooLong looped (standing_ne_gone still)
      · exact looped

end Follows

end EtherDog
