import Oasi.Runtime.Accepted

/-! # Acknowledgements and their requests

An acknowledgement answers its request when it was delivered after the request was
written. The queue does not tell: a line that was delivered too early is accepted
like any other. When no acknowledgement comes before its request, every accepted one
is an answer and a run whose child says anything unasked does not return `Ok`.
-/

namespace Oasi

/-- The acknowledgement that is accepted after these effects was delivered after its
request was written. -/
def Solicited (earlier : List Effect) (line : String) : Prop :=
  ∃ before command between after,
    earlier = before ++ .sent command :: between ++ .delivered (.line line) :: after ∧
    (sentIn before).length = (acceptedIn earlier).length ∧
    (deliveredIn (before ++ .sent command :: between)).length = (acceptedIn earlier).length + 1

/-- Every accepted acknowledgement answers its request. -/
def AllSolicited (effects : List Effect) : Prop :=
  ∀ earlier line later, effects = earlier ++ .accepted line :: later → Solicited earlier line

/-- A line was delivered when no request was waiting for one. -/
def Unsolicited (effects : List Effect) : Prop :=
  ∃ before line after, effects = before ++ .delivered (.line line) :: after ∧
    (sentIn before).length < (deliveredIn before).length

/-- A line that acknowledges one of the requests, by its place among the messages and
its text, was delivered before that request was written. -/
def Premature (requests : List BoundChildRequest) (effects : List Effect) : Prop :=
  ∃ before line after index expected, effects = before ++ .delivered (.line line) :: after ∧
    (deliveredIn before).length = index + 1 ∧
    (BoundChildRequest.answers 0 requests)[index]? = some expected ∧
    line ++ "\n" = expected.canonical ∧ (sentIn before).length ≤ index

/-! ## Positions -/

theorem getElem?_of_concat_prefix {α : Type} {front list : List α} {last : α}
    (h : front ++ [last] <+: list) : list[front.length]? = some last := by
  obtain ⟨tail, rfl⟩ := h
  rw [List.append_assoc, List.getElem?_append_right (Nat.le_refl _), Nat.sub_self]
  rfl

section Positions

variable {α β : Type} {read : α → Option β}

/-- What is found at an index of the readings was read at some element. -/
theorem filterMap_split {list : List α} {index : Nat} {found : β}
    (h : (list.filterMap read)[index]? = some found) :
    ∃ before element after, list = before ++ element :: after ∧ read element = some found ∧
      (before.filterMap read).length = index := by
  obtain ⟨hlength, hfound⟩ := List.getElem?_eq_some_iff.mp h
  obtain ⟨front, back, rfl, hfront, hback⟩ :=
    List.filterMap_eq_append_iff.mp (List.take_append_drop index (list.filterMap read)).symm
  rw [List.drop_eq_getElem_cons hlength] at hback
  obtain ⟨silent, element, after, rfl, hsilent, helement, _⟩ := List.filterMap_eq_cons_iff.mp hback
  refine ⟨front ++ silent, element, after, by rw [List.append_assoc], ?_, ?_⟩
  · rw [helement, hfound]
  · have hnone : silent.filterMap read = [] := List.filterMap_eq_nil_iff.mpr hsilent
    rw [List.filterMap_append, hnone, List.append_nil, hfront, List.length_take]
    exact Nat.min_eq_left (Nat.le_of_lt hlength)

/-- The element at a reading is found there. -/
theorem getElem?_filterMap {before after : List α} {element : α} {found : β}
    (h : read element = some found) :
    ((before ++ element :: after).filterMap read)[(before.filterMap read).length]? =
      some found := by
  rw [List.filterMap_append, List.getElem?_append_right (Nat.le_refl _), Nat.sub_self,
    List.filterMap_cons_some h]
  rfl

/-- As many readings come before one element only. -/
theorem front_unique {first second rest rest' : List α} {element element' : α} {found found' : β}
    (h : first ++ element :: rest = second ++ element' :: rest') (hread : read element = some found)
    (hread' : read element' = some found')
    (hlength : (first.filterMap read).length = (second.filterMap read).length) :
    first = second := by
  rcases List.append_eq_append_iff.mp h with ⟨more, rfl, hmore⟩ | ⟨more, rfl, hmore⟩
  all_goals
    cases more with
    | nil => simp
    | cons head more =>
        rw [List.cons_append, List.cons.injEq] at hmore
        obtain ⟨rfl, _⟩ := hmore
        simp [hread, hread'] at hlength

end Positions

/-! ## Runs -/

section Splittings

variable {effects : List Effect} {requests : List BoundChildRequest}

theorem deliveredIn_split {index : Nat} {message : ReaderMessage}
    (h : (deliveredIn effects)[index]? = some message) :
    ∃ before after, effects = before ++ .delivered message :: after ∧
      (deliveredIn before).length = index := by
  obtain ⟨before, effect, after, rfl, heffect, hlength⟩ := filterMap_split h
  cases effect <;> simp at heffect
  exact ⟨before, after, by rw [heffect], hlength⟩

theorem sentIn_split {index : Nat} {command : String}
    (h : (sentIn effects)[index]? = some command) :
    ∃ before after, effects = before ++ .sent command :: after ∧
      (sentIn before).length = index := by
  obtain ⟨before, effect, after, rfl, heffect, hlength⟩ := filterMap_split h
  cases effect <;> simp at heffect
  exact ⟨before, after, by rw [heffect], hlength⟩

theorem acceptedIn_split {index : Nat} {line : String}
    (h : (acceptedIn effects)[index]? = some line) :
    ∃ before after, effects = before ++ .accepted line :: after ∧
      (acceptedIn before).length = index := by
  obtain ⟨before, effect, after, rfl, heffect, hlength⟩ := filterMap_split h
  cases effect <;> simp at heffect
  exact ⟨before, after, by rw [heffect], hlength⟩

/-- A message was delivered before one request was written, or after it. -/
theorem delivered_after_sent {before : List Effect} {index : Nat}
    (h : index < (sentIn before).length) :
    ∃ front command between, before = front ++ .sent command :: between ∧
      (sentIn front).length = index := by
  obtain ⟨front, between, hbefore, hfront⟩ := sentIn_split (List.getElem?_eq_getElem h)
  exact ⟨front, _, between, hbefore, hfront⟩

/-- One line at its place in the order of delivery makes the acknowledgement of a
request that comes after it premature, and any other solicited. -/
theorem solicited_of_not_premature {earlier later : List Effect} {line : String}
    {expected : BoundExpectedAck} (hpremature : ¬Premature requests (earlier ++ later))
    (hdelivered : (deliveredIn earlier)[(acceptedIn earlier).length + 1]? = some (.line line))
    (hexpected : (BoundChildRequest.answers 0 requests)[(acceptedIn earlier).length]? =
      some expected) (hline : line ++ "\n" = expected.canonical) : Solicited earlier line := by
  obtain ⟨before, after, hearlier, hbefore⟩ := deliveredIn_split hdelivered
  have hsent : (acceptedIn earlier).length < (sentIn before).length := by
    by_contra hlate
    refine hpremature ⟨before, line, after ++ later, _, expected, ?_, hbefore, hexpected, hline,
      Nat.le_of_not_lt hlate⟩
    rw [hearlier, List.append_assoc, List.cons_append]
  obtain ⟨front, command, between, rfl, hfront⟩ := delivered_after_sent hsent
  exact ⟨front, command, between, after, hearlier, hfront, hbefore⟩

/-- A premature acknowledgement that is accepted is not an answer. -/
theorem not_solicited_of_early {before after earlier later : List Effect} {line answer : String}
    (hsplit : before ++ .delivered (.line line) :: after = earlier ++ later)
    (hplace : (deliveredIn before).length = (acceptedIn earlier).length + 1)
    (hearly : (sentIn before).length ≤ (acceptedIn earlier).length) :
    ¬Solicited earlier answer := by
  rintro ⟨front, command, between, rest, hearlier, hfront, hdelivered⟩
  have hsame : before = front ++ .sent command :: between := by
    refine @front_unique _ _ Effect.delivered? before (front ++ .sent command :: between) after
      (rest ++ later) (.delivered (.line line)) (.delivered (.line answer)) _ _ ?_ rfl rfl
      (hplace.trans hdelivered.symm)
    rw [hsplit, hearlier, List.append_assoc, List.cons_append]
  rw [hsame, sentIn_append, List.length_append, hfront] at hearly
  simp at hearly

end Splittings

namespace Runtime

/-- Nothing is written or accepted before the first turn. -/
theorem silent_new {startup : Startup} {runtime : Runtime} {effects : List Effect}
    (hnew : new startup = .ok (runtime, effects)) :
    sentIn effects = [] ∧ acceptedIn effects = [] := by
  obtain ⟨_, _, _, _, _, _, _, rfl⟩ := (launched_of_new hnew).child
  simp [RuntimeState.records, RuntimeState.calls]

/-- What is accepted is accepted in the history. -/
theorem accepted_past_new {effects history earlier later : List Effect} {line : String}
    (hnone : acceptedIn effects = [])
    (h : effects ++ history = earlier ++ .accepted line :: later) :
    ∃ front, earlier = effects ++ front ∧ history = front ++ .accepted line :: later := by
  rcases List.append_eq_append_iff.mp h with ⟨front, hearlier, hhistory⟩ | ⟨front, heffects, hrest⟩
  · exact ⟨front, hearlier, hhistory⟩
  · cases front with
    | nil => exact ⟨[], by simpa using heffects.symm, hrest.symm⟩
    | cons effect front =>
        rw [List.cons_append, List.cons.injEq] at hrest
        obtain ⟨rfl, _⟩ := hrest
        simp [heffects] at hnone

/-- What is known of an accepted line: its request was written, it is the canonical
acknowledgement of that request, and the oldest message not yet taken. -/
structure InOrder (requests : List BoundChildRequest) (earlier : List Effect) (line : String) :
    Prop where
  written : (acceptedIn earlier).length < (sentIn earlier).length
  canonical : ∃ expected, (BoundChildRequest.answers 0 requests)[(acceptedIn earlier).length]? =
    some expected ∧ line ++ "\n" = expected.canonical
  oldest : (deliveredIn earlier)[(acceptedIn earlier).length + 1]? = some (.line line)

/-- Every accepted acknowledgement is in order. An accepted run has taken the
acknowledgements of all its requests and nothing else, so any other message of the
child keeps the run from returning `Ok`. -/
theorem acknowledgements_in_order {startup : Startup} {runtime : Runtime} {effects : List Effect}
    (hnew : new startup = .ok (runtime, effects)) (occurrences : List Occurrence) :
    ∃ processId greeting requests, startup.spawned = .ok processId ∧
      greeting ++ "\n" = hello processId.toUInt64 ∧
      sentIn (effects ++ effectsOf (runtime.history occurrences)) =
        requests.map BoundChildRequest.encode ∧
      (∀ earlier line later, effects ++ effectsOf (runtime.history occurrences) =
        earlier ++ .accepted line :: later → InOrder requests earlier line) ∧
      ∀ metrics, runtime.run occurrences = some (.ok metrics) →
        ∃ lines : List String, lines.map (· ++ "\n") =
            (BoundChildRequest.answers 0 requests).map BoundExpectedAck.canonical ∧
          acceptedIn (effects ++ effectsOf (runtime.history occurrences)) = lines ∧
          deliveredIn (effects ++ effectsOf (runtime.history occurrences)) =
            .line greeting :: lines.map .line ++ [.eof] := by
  obtain ⟨hactions, processId, greeting, hspawned, hgreeting, hdelivered⟩ := deliveredIn_new hnew
  obtain ⟨hunsent, hunaccepted⟩ := silent_new hnew
  obtain ⟨requests, htransactions⟩ := transactions_of_history runtime occurrences
  have htaken := taken_history runtime occurrences
  have hsent : sentIn (effects ++ effectsOf (runtime.history occurrences)) =
      requests.map BoundChildRequest.encode := by
    rw [sentIn_append, hunsent, List.nil_append, htransactions.sent]
  refine ⟨processId, greeting, requests, hspawned, hgreeting, hsent, ?_, ?_⟩
  · intro earlier line later hall
    obtain ⟨front, rfl, hsplit⟩ := accepted_past_new hunaccepted hall
    -- each moment of the history is a prefix of it, and the three invariants hold of all prefixes
    have hmoment : front ++ [.accepted line] <+: effectsOf (runtime.history occurrences) :=
      ⟨later, by rw [hsplit, List.append_assoc]; rfl⟩
    have haccepted : acceptedIn (front ++ [.accepted line]) = acceptedIn front ++ [line] := by
      simp
    have hcount : acceptedIn (effects ++ front) = acceptedIn front := by
      rw [acceptedIn_append, hunaccepted, List.nil_append]
    constructor
    · have hrequested := htaken.requested _ hmoment
      rw [haccepted, List.length_append, List.length_singleton, sentIn_append] at hrequested
      rw [hcount, sentIn_append, hunsent, List.nil_append]
      simpa [Nat.succ_le_iff] using hrequested
    · have hanswers : (acceptedIn (front ++ [.accepted line])).map (· ++ "\n") <+:
          (BoundChildRequest.answers 0 requests).map BoundExpectedAck.canonical := by
        have hall := htransactions.accepted
        rw [hactions] at hall
        exact ((hmoment.filterMap _).map _).trans hall
      rw [haccepted, List.map_append, List.map_singleton] at hanswers
      have helement := getElem?_of_concat_prefix hanswers
      rw [List.length_map, List.getElem?_map, Option.map_eq_some_iff] at helement
      obtain ⟨expected, hexpected, hcanonical⟩ := helement
      exact ⟨expected, hcount ▸ hexpected, hcanonical.symm⟩
    · have holdest := htaken.oldest _ hmoment
      rw [haccepted, List.map_append, List.map_singleton] at holdest
      have helement := getElem?_of_concat_prefix holdest
      rw [List.length_map] at helement
      rw [hcount, deliveredIn_append, hdelivered, List.cons_append, List.getElem?_cons_succ]
      simpa using helement
  · intro metrics hrun
    -- a run that returned `Ok` has met the end of the output with nothing left in the queue
    have hconclusion := conclusion_of_run hrun htransactions
    have haccepted := hconclusion.accepted
    rw [hactions] at haccepted
    refine ⟨_, haccepted, by rw [acceptedIn_append, hunaccepted, List.nil_append], ?_⟩
    rw [deliveredIn_append, hdelivered, List.cons_append, hconclusion.settled.left,
      List.cons_append]

section Orders

variable {requests : List BoundChildRequest} {effects : List Effect}

theorem allSolicited_of_not_premature
    (horder : ∀ earlier line later, effects = earlier ++ .accepted line :: later →
      InOrder requests earlier line) (hpremature : ¬Premature requests effects) :
    AllSolicited effects := by
  rintro earlier line later rfl
  obtain ⟨_, ⟨expected, hexpected, hline⟩, holdest⟩ := horder earlier line later rfl
  exact solicited_of_not_premature hpremature holdest hexpected hline

variable {greeting : String} {lines : List String}

/-- Of a child that says nothing else, an unasked line is a premature acknowledgement. -/
theorem premature_of_unsolicited
    (hlines : lines.map (· ++ "\n") =
      (BoundChildRequest.answers 0 requests).map BoundExpectedAck.canonical)
    (hdelivered : deliveredIn effects = .line greeting :: lines.map .line ++ [.eof])
    (h : Unsolicited effects) : Premature requests effects := by
  obtain ⟨before, line, after, rfl, hearly⟩ := h
  have hfound : (deliveredIn (before ++ .delivered (.line line) :: after))[
      (deliveredIn before).length]? = some (.line line) := getElem?_filterMap rfl
  obtain ⟨index, hindex⟩ := Nat.exists_eq_add_one_of_ne_zero (Nat.ne_zero_of_lt hearly)
  rw [hdelivered, hindex, List.cons_append, List.getElem?_cons_succ] at hfound
  have hline : lines[index]? = some line := by
    rcases Nat.lt_or_ge index (lines.map ReaderMessage.line).length with hlt | hge
    · rw [List.getElem?_append_left hlt, List.getElem?_map, Option.map_eq_some_iff] at hfound
      obtain ⟨other, hother, hsame⟩ := hfound
      rw [hother, ReaderMessage.line.inj hsame]
    · rw [List.getElem?_append_right hge, List.getElem?_singleton] at hfound
      split at hfound <;> simp at hfound
  have hcanonical : (lines.map (· ++ "\n"))[index]? = some (line ++ "\n") := by
    rw [List.getElem?_map, hline, Option.map_some]
  rw [hlines, List.getElem?_map, Option.map_eq_some_iff] at hcanonical
  obtain ⟨expected, hexpected, hline⟩ := hcanonical
  exact ⟨before, line, after, index, expected, rfl, hindex, hexpected, hline.symm, by omega⟩

/-- Where every request was answered, a premature acknowledgement was accepted. -/
theorem not_premature_of_allSolicited (haccepted : acceptedIn effects = lines)
    (hlines : lines.map (· ++ "\n") =
      (BoundChildRequest.answers 0 requests).map BoundExpectedAck.canonical)
    (h : AllSolicited effects) : ¬Premature requests effects := by
  rintro ⟨before, line, after, index, expected, hsplit, hplace, hexpected, _, hearly⟩
  have hlength : index < (acceptedIn effects).length := by
    have hsame := congrArg List.length hlines
    rw [List.length_map, List.length_map] at hsame
    rw [haccepted, hsame]
    exact (List.getElem?_eq_some_iff.mp hexpected).1
  obtain ⟨earlier, later, hearlier, rfl⟩ := acceptedIn_split (List.getElem?_eq_getElem hlength)
  exact not_solicited_of_early (hsplit.symm.trans hearlier) hplace hearly
    (h earlier _ later hearlier)

end Orders

/-- When no acknowledgement is delivered before its request is written, every
acknowledgement that is accepted answers the request it acknowledges, and no run whose
child says anything unasked returns `Ok`. Of a run that does return `Ok` the condition
is necessary, and its child has said nothing but the HELLO and the acknowledgements. -/
theorem acknowledgements_solicited {startup : Startup} {runtime : Runtime} {effects : List Effect}
    (hnew : new startup = .ok (runtime, effects)) (occurrences : List Occurrence) :
    ∃ processId greeting requests, startup.spawned = .ok processId ∧
      greeting ++ "\n" = hello processId.toUInt64 ∧
      sentIn (effects ++ effectsOf (runtime.history occurrences)) =
        requests.map BoundChildRequest.encode ∧
      (∀ earlier line later, effects ++ effectsOf (runtime.history occurrences) =
        earlier ++ .accepted line :: later → InOrder requests earlier line) ∧
      (¬Premature requests (effects ++ effectsOf (runtime.history occurrences)) →
        AllSolicited (effects ++ effectsOf (runtime.history occurrences)) ∧
        (Unsolicited (effects ++ effectsOf (runtime.history occurrences)) →
          ∀ metrics, runtime.run occurrences ≠ some (.ok metrics))) ∧
      ∀ metrics, runtime.run occurrences = some (.ok metrics) →
        (AllSolicited (effects ++ effectsOf (runtime.history occurrences)) →
          ¬Premature requests (effects ++ effectsOf (runtime.history occurrences))) ∧
        ∃ lines : List String, lines.map (· ++ "\n") =
            (BoundChildRequest.answers 0 requests).map BoundExpectedAck.canonical ∧
          deliveredIn (effects ++ effectsOf (runtime.history occurrences)) =
            .line greeting :: lines.map .line ++ [.eof] := by
  obtain ⟨processId, greeting, requests, hspawned, hgreeting, hsent, horder, haccepted⟩ :=
    acknowledgements_in_order hnew occurrences
  refine ⟨processId, greeting, requests, hspawned, hgreeting, hsent, horder, ?_, ?_⟩
  · intro hpremature
    refine ⟨allSolicited_of_not_premature horder hpremature, fun hunsolicited metrics hrun => ?_⟩
    obtain ⟨lines, hlines, _, hdelivered⟩ := haccepted metrics hrun
    exact hpremature (premature_of_unsolicited hlines hdelivered hunsolicited)
  · intro metrics hrun
    obtain ⟨lines, hlines, hlist, hdelivered⟩ := haccepted metrics hrun
    exact ⟨not_premature_of_allSolicited hlist hlines, lines, hlines, hdelivered⟩

theorem deliveredIn_startup {startup : Startup} {runtime : Runtime} {effects : List Effect}
    {room : Nat} (hnew : new startup = .ok (runtime, effects)) (hready : runtime.Ready room) :
    (deliveredIn effects).length = 1 := by
  obtain ⟨_, _, _, _, _, hgreeting⟩ := deliveredIn_new hnew
  obtain ⟨child, hchild⟩ := Option.isSome_iff_exists.mp hready.attended
  rw [hgreeting, awaiting_of_child hchild, (hready.child child hchild).responses]
  rfl

/-- A run with one request, whose acknowledgement is delivered after it. -/
theorem not_premature_of_late {effects rest : List Effect} {requests : List BoundChildRequest}
    {command : String} (hstart : (deliveredIn effects).length = 1) (hone : requests.length = 1) :
    ¬Premature requests (effects ++ .sent command :: rest) := by
  rintro ⟨before, line, after, index, expected, hsplit, hplace, hexpected, _, hearly⟩
  have hindex : index < requests.length := by
    rw [← BoundChildRequest.length_answers 0 requests]
    exact (List.getElem?_eq_some_iff.mp hexpected).1
  have hsilent : sentIn before = [] := List.eq_nil_of_length_eq_zero (by omega)
  -- the line comes second, so after the greeting, and after what follows the greeting
  have hmoment : before ++ [.delivered (.line line)] <+: effects ++ .sent command :: rest :=
    ⟨after, by rw [hsplit, List.append_assoc]; rfl⟩
  have hcount : (deliveredIn (before ++ [.delivered (.line line)])).length = index + 2 := by
    rw [deliveredIn_append, List.length_append, hplace]
    rfl
  rcases moment_cases hmoment with hfront | ⟨more, hmore, hpast⟩
  · have hle := (hfront.filterMap Effect.delivered?).length_le
    change (deliveredIn _).length ≤ (deliveredIn effects).length at hle
    omega
  · cases more with
    | nil =>
        rw [hpast, List.append_nil] at hcount
        omega
    | cons effect more =>
        obtain ⟨rfl, _⟩ := List.cons_prefix_cons.mp hmore
        have hsent := congrArg sentIn hpast
        simp [hsilent] at hsent

/-- A run whose only acknowledgement answers its request. -/
theorem acknowledgements_solicited_stop :
    ∃ runtime effects occurrence metrics earlier line later,
      new calmStartup = .ok (runtime, effects) ∧
      runtime.run [occurrence] = some (.ok metrics) ∧
      effects ++ effectsOf (runtime.history [occurrence]) = earlier ++ .accepted line :: later ∧
      Solicited earlier line := by
  obtain ⟨runtime, effects, expected, hnew, hready, hstops⟩ := stop_calmStartup
  obtain ⟨metrics, hresult⟩ := hstops [] [.line (trimEndNewlines expected.canonical)] rfl
  obtain ⟨hhistory, hrun⟩ := run_of_result hresult
  obtain ⟨_, command, line, rest, heffects⟩ := conclude_of_result hresult
  obtain ⟨_, _, _, hstop⟩ := sentIn_concluded (turn_of_concluding hresult).1
  have hturns := effectsOf_cons (runtimeMachine.transition runtime
    ⟨.event .stop, calmSurroundings 1 [] [.line (trimEndNewlines expected.canonical)]⟩) []
  rw [effectsOf_nil, List.append_nil, ← hhistory] at hturns
  obtain ⟨_, _, requests, _, _, hsent, _, hsolicited, _⟩ := acknowledgements_solicited hnew
    [⟨.event .stop, calmSurroundings 1 [] [.line (trimEndNewlines expected.canonical)]⟩]
  have hone : requests.length = 1 := by
    rw [sentIn_append, (silent_new hnew).1, hturns, hstop] at hsent
    simpa using (congrArg List.length hsent).symm
  have hsplit : effects ++ effectsOf (runtime.history [⟨.event .stop,
      calmSurroundings 1 [] [.line (trimEndNewlines expected.canonical)]⟩]) =
      effects ++ .sent command ::
        (.delivered (.line (trimEndNewlines expected.canonical)) :: .accepted line :: rest) := by
    rw [hturns, heffects]
    rfl
  refine ⟨runtime, effects, _, metrics, effects ++
    [.sent command, .delivered (.line (trimEndNewlines expected.canonical))], line, rest, hnew,
    hrun, by rw [hsplit]; simp, ?_⟩
  have hlate := @not_premature_of_late effects (.delivered (.line (trimEndNewlines
    expected.canonical)) :: .accepted line :: rest) requests command
    (deliveredIn_startup hnew hready) hone
  exact (hsolicited (hsplit ▸ hlate)).1 _ _ rest (by rw [hsplit]; simp)

/-- A run that returns `Ok` although its only acknowledgement was delivered before its
request was written. -/
theorem acknowledgement_before_request :
    ∃ runtime effects occurrence metrics, new calmStartup = .ok (runtime, effects) ∧
      runtime.run [occurrence] = some (.ok metrics) ∧
      Unsolicited (effects ++ effectsOf (runtime.history [occurrence])) ∧
      ¬AllSolicited (effects ++ effectsOf (runtime.history [occurrence])) := by
  obtain ⟨runtime, effects, expected, hnew, hready, hstops⟩ := stop_calmStartup
  let answer := trimEndNewlines expected.canonical
  obtain ⟨metrics, hresult⟩ := hstops [.line answer] [] rfl
  obtain ⟨hhistory, hrun⟩ := run_of_result hresult
  obtain ⟨_, command, line, rest, heffects⟩ := conclude_of_result hresult
  have hstart := deliveredIn_startup hnew hready
  obtain ⟨hunsent, hunaccepted⟩ := silent_new hnew
  have hsplit : effects ++ effectsOf (runtime.history
      [⟨.event .stop, calmSurroundings 1 [.line answer] []⟩]) =
      effects ++ .delivered (.line answer) :: .sent command :: .accepted line :: rest := by
    rw [hhistory, effectsOf_cons, effectsOf_nil, List.append_nil, heffects]
    rfl
  refine ⟨runtime, effects, _, metrics, hnew, hrun, ?_, fun hsolicited => ?_⟩
  · exact ⟨effects, answer, _, hsplit, by rw [hunsent, hstart]; exact Nat.zero_lt_one⟩
  · have haccepted := hsolicited (effects ++ [.delivered (.line answer), .sent command]) line rest
      (by rw [hsplit]; simp)
    refine @not_solicited_of_early effects (.sent command :: .accepted line :: rest)
      (effects ++ [.delivered (.line answer), .sent command]) (.accepted line :: rest) answer line
      (by simp) ?_ ?_ haccepted
    · simp [hstart, hunaccepted]
    · simp [hunsent]

end Runtime

end Oasi
