import AudioBringup.Proofs.Budget
import AudioBringup.Proofs.StreamCalls
import AudioBringup.Proofs.WalkBounds
/-!
# Proofs.BoundedRun — a run comes to an end, and after how many calls

Every wait of the sequence follows the limit that is configured for it, every command is one exchange, and the walk is
bounded by its allowance.  So each step costs a number of calls that the configuration and the extent of the platform
give, and the run with its cleanup costs their sum (`run_bounded`).
-/
namespace AudioBringup

open Procedure

/-- Every wait has a limit. -/
def PollPolicy.Bounded (poll : PollPolicy) : Prop := ∀ site, poll.limit site ≠ .unbounded

/-- How many checks a wait makes at most. -/
def PollPolicy.checks (poll : PollPolicy) (site : WaitSite) : Nat := (poll.limit site).checks 0

/-! ### The price of every step -/

namespace Config

/-- The waits of the reset, and those for the rings to be set up. -/
def bringUpCalls (config : Config) : Nat :=
  31 + config.poll.checks .controllerReset + 4 * config.poll.checks .ringReset

/-- The rings are stopped and reset, and their memory given back. -/
def tearDownCalls (config : Config) : Nat := 10 + 4 * config.poll.checks .ringReset

end Config

namespace Extent

variable (x : Extent) (config : Config)

/-- One exchange through the rings, or through the immediate interface. -/
def exchangeCalls : Nat := max (2 + 2 * config.poll.checks .corbDrain) (8 + 2 * max x.timerChecks 1)

/-- Sixteen parameters of a node, its power state and its two amplifiers. -/
def visitCalls : Nat := 19 * x.exchangeCalls config

/-- The root of every codec, and as many nodes below it as may be visited. -/
def walkCalls : Nat := Controller.maxCodecs * ((1 + config.maxWalkVisits) * x.visitCalls config)

/-- The reset of an engine, its registers, and two commands for every converter there can be. -/
def programCalls : Nat :=
  12 + 2 * config.poll.checks .streamReset + Controller.maxCodecs * config.maxWalkVisits * (2 * x.exchangeCalls config)

/-- The engine that played is stopped, and all memory of the streams given back. -/
def releaseCalls : Nat := 6 + config.poll.checks .streamReset + x.engines

/-- Everything up to the stream being set running, with its memory. -/
def playCalls : Nat :=
  config.bringUpCalls + (4 + x.engines) + x.walkCalls config + x.programCalls config + 8

/-- The whole run: streams and transport are taken down in the sequence, and again where that was cut short. -/
def runCalls : Nat :=
  3 + x.candidates + x.playCalls config + 2 * (x.releaseCalls config + config.tearDownCalls)

end Extent

/-! ### What is known of the state -/

/-- The rings wait as they were configured to. -/
def CommandRings.Follows (poll : PollPolicy) (r : CommandRings) : Prop :=
  r.resetLimit = poll.limit .ringReset ∧ r.drainLimit = poll.limit .corbDrain

/-- The transport waits as it was configured to. -/
def Transport.Follows (poll : PollPolicy) : Transport → Prop
  | .immediate _ => True
  | .rings r => r.Follows poll

/-- The controller is the configured one, and its transport waits as that says. -/
def Controller.Follows (config : Config) (c : Controller) : Prop :=
  c.config = config ∧ ∀ t, c.transport = some t → t.Follows config.poll

/-- There are no more engines than the controller has. -/
def Streams.Fits (x : Extent) (s : Streams) : Prop := s.input.length + s.output.length + s.bidirectional.length ≤ x.engines

/-- What is known of a run while the controller is bound. -/
def Bringup.Follows (x : Extent) (config : Config) (b : Bringup) : Prop :=
  b.controller.Follows config ∧ ∀ s, b.streams = some s → s.Fits x

variable {σ α : Type} {x : Extent} {n : Nat} {I : σ → Prop} {config : Config} {poll : PollPolicy}

/-! ### The transports -/

/-- A wait that checks by one call. -/
theorem spends_waitFor (hpoll : poll.Bounded) (site : WaitSite) {check : Procedure σ Bool}
    (hcheck : Spends x n I 1 check fun _ => True) :
    Spends x n I (poll.checks site) (waitUntil site (poll.limit site) check) fun _ => True :=
  (spends_waitUntil (hpoll site) hcheck).le (Nat.le_of_eq (Nat.mul_one _))

namespace CommandRings

theorem stop_spends (hpoll : poll.Bounded) (control : BitVec 32) :
    Spends x n I (2 + poll.checks .ringReset) (stop control (poll.limit .ringReset)) fun _ => True := by
  apply Spends.le
  · apply (spends_read8 control).andThen
    intro r
    apply (spends_write _ _ _).seq
    exact spends_waitFor hpoll .ringReset ((spends_read8 control).andThen fun _ => spends_pure trivial)
  · omega

theorem start_spends (control : BitVec 32) : Spends x n I 2 (start control) fun _ => True :=
  (spends_read8 control).andThen fun _ => spends_write _ _ _

theorem resetPointers_spends (hpoll : poll.Bounded) :
    Spends x n I (4 + 2 * poll.checks .ringReset) (resetPointers (poll.limit .ringReset)) fun _ => True := by
  apply Spends.le
  · apply (spends_write _ _ _).seq
    apply (spends_write _ _ _).seq
    apply (spends_waitFor hpoll .ringReset (spends_look16 _ _)).seq
    apply (spends_write _ _ _).seq
    apply (spends_waitFor hpoll .ringReset (spends_look16 _ _)).seq
    exact spends_write _ _ _
  · omega

theorem enlarge_spends (size : BitVec 32) : Spends x n I 2 (enlarge size) fun _ => True := by
  apply Spends.le
  · apply (spends_read8 size).andThen
    intro r
    apply (spends_write _ _ _).seq
    exact spends_pure trivial
  · omega

/-- Giving the command ring back, where there is no memory for the response ring, costs less than all that is left out. -/
theorem setUp_spends (hpoll : poll.Bounded) :
    Spends x n I (23 + 4 * poll.checks .ringReset) (setUp poll) (Follows poll) := by
  apply Spends.le
  · apply (stop_spends hpoll _).seq
    apply (stop_spends hpoll _).seq
    apply (spends_allocate _).andThen
    intro corb
    apply spends_attempt (spends_allocate _)
    · intro rirb _
      apply (spends_zero _).seq
      apply (spends_zero _).seq
      apply (spends_writeAddress _ _ _).seq
      apply (spends_writeAddress _ _ _).seq
      apply (enlarge_spends _).andThen
      intro corbEntries
      apply (enlarge_spends _).andThen
      intro rirbEntries
      apply (spends_note _).seq
      apply (resetPointers_spends hpoll).seq
      apply (start_spends _).seq
      apply (spends_write _ _ _).seq
      apply (start_spends _).seq
      exact spends_pure ⟨rfl, rfl⟩
    · intro e
      apply ((spends_free corb).seq (spends_fail e)).le
      omega
  · omega

theorem tearDown_spends (hpoll : poll.Bounded) {r : CommandRings} (hr : r.Follows poll) :
    Spends x n I (10 + 4 * poll.checks .ringReset) r.tearDown fun _ => True := by
  unfold tearDown
  rw [hr.1]
  apply Spends.le
  · apply (stop_spends hpoll _).seq
    apply (stop_spends hpoll _).seq
    apply (resetPointers_spends hpoll).seq
    exact (spends_free _).seq (spends_free _)
  · omega

theorem exchange_spends (hpoll : poll.Bounded) (word : BitVec 32) :
    Spends x n (Follows poll) (2 + 2 * poll.checks .corbDrain) (exchange word) fun _ => True := by
  apply Spends.le
  · apply spends_modify_seq (f := advanceWrite) fun _ hr => hr
    apply spends_get_bind
    intro r hr
    rw [hr.2]
    apply (spends_store32 _ _ _).seq
    apply (spends_write _ _ _).seq
    apply (spends_waitFor hpoll .corbDrain (spends_look16 _ _)).seq
    apply (spends_waitFor hpoll .rirbResponse (spends_look16 _ _)).seq
    apply spends_modify_seq (f := advanceRead) fun _ hr => hr
    apply spends_get_bind
    intro r _
    apply (spends_load32 _ _).andThen
    intro response
    apply (spends_write _ _ _).seq
    apply (spends_note _).seq
    exact spends_pure trivial
  · -- one limit is configured for both waits
    have : poll.checks .rirbResponse = poll.checks .corbDrain := rfl
    omega

end CommandRings

namespace ImmediateInterface

/-- A timer that has been looked at `made` times is looked at for the rest of its checks only. -/
theorem awaitResponse_spends {s : σ} (hs : I s) : ∀ (left made : Nat) (h : History), h.looks = some made →
    made < max x.timerChecks 1 → max x.timerChecks 1 ≤ made + left →
    Ensures x.world n (awaitResponse left) s h (spent I (fun _ => True) (h.calls + 2 * (max x.timerChecks 1 - made)))
  -- the checks that are left outlast the looks that are
  | 0, made, h, _, hmade, hleft => by omega
  | left + 1, made, h, hlooks, hmade, hleft => by
    refine ensures_bind.2 (ensures_bind.2 (ensures_read.2 ?_))
    rintro (e | status) _ ⟨rfl, -⟩
    · have hread := History.calls_cons_le ⟨.read .word Register.icis, Except.error e⟩ h
      exact ⟨hs, by omega⟩
    have hread := History.calls_cons_le ⟨.read .word Register.icis, Except.ok status⟩ h
    have hlooks' : History.looks (⟨.read .word Register.icis, Except.ok status⟩ :: h) = some made := hlooks
    generalize (⟨.read .word Register.icis, Except.ok status⟩ :: h : History) = h₁ at hread hlooks' ⊢
    change Ensures x.world n (if _ then _ else _) s h₁ _
    split
    · exact ⟨trivial, hs, by omega⟩
    refine ensures_bind.2 (ensures_timerExpired.2 ?_)
    rintro (e | expired) _ ⟨rfl, hallowed⟩
    · have hlook := History.calls_cons_le ⟨.timerExpired, Except.error e⟩ h₁
      exact ⟨hs, by omega⟩
    have hlook := History.calls_cons_le ⟨.timerExpired, Except.ok expired⟩ h₁
    cases expired with
    | true => exact ⟨trivial, hs, by omega⟩
    | false =>
      -- it was not the last look, or the platform would have had to say that the timer has expired
      have hmore : made + 1 < x.timerChecks := hallowed made hlooks'
      apply (awaitResponse_spends hs left (made + 1) _ (by simp [History.looks, hlooks']) (by omega) (by omega)).spent_mono
      · omega
      · exact fun _ => id

/-- Waiting for a response under a timer of its own. -/
theorem spends_awaitUnderTimer {k : Nat} {f : Bool → Procedure σ α} {S : α → Prop} (hn : max x.timerChecks 1 ≤ n)
    (timeout : BitVec 64) (hf : ∀ answered, Spends x n I k (f answered) S) :
    Spends x n I (1 + 2 * max x.timerChecks 1 + k)
      (do armTimer timeout; (fun patience => awaitResponse patience patience) >>= f) S := by
  intro s h hs
  rw [ensures_bind, ensures_armTimer]
  rintro (e | armed) _ ⟨rfl, -⟩
  · exact ⟨hs, Nat.le_trans (History.calls_cons_le _ _) (by omega)⟩
  have harm := History.calls_cons_le ⟨.armTimer timeout, Except.ok armed⟩ h
  apply ensures_bind.2
  apply (awaitResponse_spends (x := x) hs n 0 _ rfl (by omega) (by omega)).mono
  · rintro answered s' h' ⟨-, hs', hcalls⟩
    apply (hf answered s' h' hs').spent_mono (by omega) fun _ => id
  · exact fun e s' h' hh => ⟨hh.1, Nat.le_trans hh.2 (by omega)⟩
  · exact fun h' hcalls => Nat.le_trans hcalls (by omega)
  · exact fun _ hstuck => hstuck

theorem exchange_spends (hn : max x.timerChecks 1 ≤ n) (timeout : BitVec 64) (word : BitVec 32) :
    Spends x n I (8 + 2 * max x.timerChecks 1) (exchange timeout word) fun _ => True := by
  apply Spends.le
  · apply (spends_write _ _ _).seq
    apply (spends_write _ _ _).seq
    apply (spends_write _ _ _).seq
    apply spends_awaitUnderTimer hn timeout
    intro answered
    apply Spends.seq (spends_ask fun _ _ _ _ _ => trivial)
    apply spends_ite
    · intro _
      apply (spends_read _ _).andThen
      intro response
      apply (spends_read16 _).andThen
      intro status
      apply (spends_write _ _ _).seq
      apply (spends_note _).seq
      exact spends_pure trivial
    · intro _
      exact (spends_note _).seq (spends_pure trivial)
  · omega

end ImmediateInterface

namespace Transport

theorem exchange_spends (hpoll : config.poll.Bounded) (hn : max x.timerChecks 1 ≤ n) (word : BitVec 32) :
    Spends x n (Follows config.poll) (x.exchangeCalls config) (exchange word) fun _ => True := by
  apply spends_get_bind
  rintro (timeout | r) hr
  · exact (ImmediateInterface.exchange_spends hn timeout word).le (Nat.le_max_right _ _)
  · have hrings : Spends x n (Follows config.poll) _ (on r (fun r _ => Transport.rings r) (CommandRings.exchange word))
        fun _ => True := spends_on (CommandRings.exchange_spends hpoll word) hr fun _ _ _ hr => hr
    exact hrings.le (Nat.le_max_left _ _)

theorem choose_spends (preference : TransportPreference) : Spends x n I 1 (choose preference) fun _ => True := by
  cases preference with
  | immediate => exact (spends_pure trivial).le (Nat.zero_le 1)
  | rings => exact (spends_pure trivial).le (Nat.zero_le 1)
  | auto => exact (spends_read16 _).andThen fun _ => (spends_note _).seq (spends_pure trivial)

theorem establish_spends (hpoll : config.poll.Bounded) :
    Spends x n I (24 + 4 * config.poll.checks .ringReset) (establish config) (Follows config.poll) := by
  apply Spends.le
  · apply (choose_spends _).andThen
    intro kind
    apply (spends_note _).seq
    cases kind with
    | immediate => exact (spends_pure trivial).le (Nat.zero_le (23 + 4 * config.poll.checks .ringReset))
    | rings => exact (CommandRings.setUp_spends hpoll).bind fun r hr => spends_pure (a := Transport.rings r) hr
  · omega

theorem tearDown_spends (hpoll : poll.Bounded) {t : Transport} (ht : t.Follows poll) :
    Spends x n I (10 + 4 * poll.checks .ringReset) t.tearDown fun _ => True := by
  cases t with
  | immediate _ => exact (spends_pure trivial).le (Nat.zero_le _)
  | rings r => exact CommandRings.tearDown_spends hpoll ht

end Transport

/-! ### The controller and its codecs -/

namespace Controller

theorem reset_spends (hpoll : config.poll.Bounded) :
    Spends x n (Follows config) (2 + config.poll.checks .controllerReset) reset fun _ => True := by
  apply Spends.le
  · apply (spends_read _ _).andThen
    intro control
    apply (spends_write _ _ _).seq
    apply spends_get_bind
    intro c hc
    rw [hc.1]
    apply (spends_waitFor hpoll .controllerReset ((spends_read _ _).andThen fun _ => spends_pure trivial)).seq
    exact spends_note _
  · omega

theorem waitForCodecs_spends : Spends x n (Follows config) 1 waitForCodecs fun _ => True :=
  spends_get_bind fun _ _ => spends_stall _

theorem scanCodecs_spends : Spends x n (Follows config) 2 scanCodecs fun _ => True := by
  apply Spends.le
  · apply (spends_read16 _).andThen
    intro status
    apply (spends_write _ _ _).seq
    apply spends_modify_seq fun c hc => ⟨hc.1, hc.2⟩
    exact (spends_note _).seq (spends_pure trivial)
  · omega

theorem suppressInterrupts_spends : Spends x n (Follows config) 2 suppressInterrupts fun _ => True :=
  (spends_write _ _ _).seq (spends_write _ _ _)

theorem establishTransport_spends (hpoll : config.poll.Bounded) :
    Spends x n (Follows config) (24 + 4 * config.poll.checks .ringReset) establishTransport fun _ => True := by
  apply Spends.le
  · apply spends_get_bind
    intro c hc
    rw [hc.1]
    apply (Transport.establish_spends hpoll).bind
    intro t ht
    apply spends_modify_seq fun c hc => ⟨hc.1, fun _ h => Option.some.inj h ▸ ht⟩
    exact spends_pure trivial
  · omega

theorem command_spends (hpoll : config.poll.Bounded) (hn : max x.timerChecks 1 ≤ n) (cmd : Command) :
    Spends x n (Follows config) (x.exchangeCalls config) (command cmd) fun _ => True := by
  apply spends_get_bind
  intro c hc
  cases ht : c.transport with
  | none => exact (spends_fail _).le (Nat.zero_le _)
  | some t =>
    have hsent : Spends x n (Follows config) (x.exchangeCalls config)
        (on t (fun t (c : Controller) => { c with transport := some t }) (Transport.exchange cmd.encode)) fun _ => True :=
      spends_on (Transport.exchange_spends hpoll hn _) (hc.2 t ht) fun c t hc ht => ⟨hc.1, fun _ h => Option.some.inj h ▸ ht⟩
    exact (spends_when (spends_note _) hsent).le (Nat.le_of_eq (Nat.zero_add _))

theorem tearDownTransport_spends (hpoll : config.poll.Bounded) :
    Spends x n (Follows config) config.tearDownCalls tearDownTransport fun _ => True := by
  apply spends_get_bind
  intro c hc
  cases ht : c.transport with
  | none => exact (spends_pure trivial).le (Nat.zero_le _)
  | some t =>
    apply Spends.le
    · apply spends_modify_seq fun c hc => ⟨hc.1, nofun⟩
      apply (spends_note _).seq
      exact Transport.tearDown_spends hpoll (hc.2 t ht)
    · unfold Config.tearDownCalls
      omega

theorem length_codecAddresses_le (c : Controller) : c.codecAddresses.length ≤ maxCodecs := by
  unfold codecAddresses
  rw [List.length_map]
  exact Nat.le_trans (List.length_filter_le _ _) (Nat.le_of_eq List.length_range)

end Controller

section
variable (hpoll : config.poll.Bounded) (hn : max x.timerChecks 1 ≤ n)
include hpoll hn

namespace Node

theorem read_spends (addr : NodeAddr) (vendorId : BitVec 32) :
    Spends x n (Controller.Follows config) (15 * x.exchangeCalls config) (read addr vendorId) fun _ => True := by
  apply Spends.le
  · unfold read
    iterate 15
      apply (Controller.command_spends hpoll hn _).andThen
      intro _
    exact spends_pure trivial
  · clear hn
    omega

/-- A command that is announced and sent only where it is wanted, and nothing made of its answer. -/
theorem sendIf_spends {wanted : Bool} {m : Notice} {cmd : Command} {k : Nat} {rest : Procedure Controller Unit}
    (hrest : Spends x n (Controller.Follows config) k rest fun _ => True) :
    Spends x n (Controller.Follows config) (x.exchangeCalls config + k) (if wanted then (do
      note m
      let _ ← Controller.command cmd
      rest) else rest) fun _ => True := by
  apply Spends.le
  · apply spends_ite
    · intro _
      apply (spends_note m).seq
      exact (Controller.command_spends hpoll hn cmd).andThen fun _ => hrest
    · exact fun _ => hrest
  · omega

theorem configure_spends (addr : NodeAddr) (node : Node) :
    Spends x n (Controller.Follows config) (3 * x.exchangeCalls config) (configure addr node) fun _ => True := by
  apply Spends.le
  · apply sendIf_spends hpoll hn
    apply sendIf_spends hpoll hn
    exact sendIf_spends hpoll hn (spends_pure trivial)
  · omega

end Node

namespace Codec

theorem visit_spends (codec id : BitVec 8) :
    Spends x n (Controller.Follows config) (x.visitCalls config) (visit codec id) fun _ => True := by
  apply Spends.le
  · apply (Controller.command_spends hpoll hn _).andThen
    intro vendorId
    apply spends_ite
    · intro _
      exact (spends_note _).seq (spends_pure trivial)
    · intro _
      apply (Node.read_spends hpoll hn _ _).andThen
      intro node
      apply (spends_note _).seq
      exact (Node.configure_spends hpoll hn _ _).seq (spends_pure trivial)
  · unfold Extent.visitCalls
    omega

/-- **The allowance bounds the visits and what they find**, whatever children the nodes name. -/
theorem walkBelow_spends (codec : BitVec 8) : ∀ allowance pending found,
    Spends x n (Controller.Follows config) (allowance * x.visitCalls config) (walkBelow codec allowance pending found)
      fun nodes => nodes.length ≤ found.length + allowance
  | 0, [], _ | _ + 1, [], _ => Spends.le (spends_pure (Nat.le_add_right _ _)) (Nat.zero_le _)
  | 0, _ :: _, _ => Spends.le (spends_fail _) (Nat.zero_le _)
  | allowance + 1, id :: pending, found => by
    apply Spends.le
    · apply (visit_spends hpoll hn codec id).andThen
      rintro (_ | node)
      · exact (walkBelow_spends codec allowance pending found).weaken (Nat.le_refl _) fun nodes hnodes => by omega
      · have hinsert := NodeTable.length_insert_le id node found
        exact (walkBelow_spends codec allowance _ _).weaken (Nat.le_refl _) fun nodes hnodes => by omega
    · rw [Nat.succ_mul]
      omega

theorem walk_spends (address : BitVec 8) :
    Spends x n (Controller.Follows config) ((1 + config.maxWalkVisits) * x.visitCalls config) (walk address)
      fun codec => ∀ c, codec = some c → c.nodes.length ≤ config.maxWalkVisits := by
  apply Spends.le
  · apply (Controller.command_spends hpoll hn _).andThen
    intro vendorId
    apply spends_ite
    · intro _
      exact (spends_note _).seq (spends_pure nofun)
    · intro _
      apply (spends_note _).seq
      apply (Node.read_spends hpoll hn _ _).andThen
      intro root
      apply (Node.configure_spends hpoll hn _ _).seq
      apply spends_get_bind
      intro c hc
      rw [hc.1]
      apply (walkBelow_spends hpoll hn address _ _ _).bind
      intro nodes hnodes
      apply (spends_note _).seq
      apply spends_pure
      intro c hc
      obtain rfl := Option.some.inj hc
      exact Nat.le_trans hnodes (Nat.le_of_eq (Nat.zero_add _))
  · rw [Nat.add_mul]
    unfold Extent.visitCalls
    omega

theorem walkAll_spends : ∀ addresses, Spends x n (Controller.Follows config)
    (addresses.length * ((1 + config.maxWalkVisits) * x.visitCalls config)) (walkAll addresses)
    fun codecs => codecs.length ≤ addresses.length ∧ ∀ c ∈ codecs, c.nodes.length ≤ config.maxWalkVisits
  | [] => (spends_pure ⟨Nat.le_refl 0, nofun⟩).le (Nat.zero_le _)
  | address :: rest => by
    apply Spends.le
    · apply (walk_spends hpoll hn address).bind
      intro codec hcodec
      apply (walkAll_spends rest).bind
      rintro codecs ⟨hlength, hcodecs⟩
      apply spends_pure
      cases codec with
      | none => exact ⟨Nat.le_succ_of_le hlength, hcodecs⟩
      | some c => exact ⟨Nat.succ_le_succ hlength, List.forall_mem_cons.2 ⟨hcodec c rfl, hcodecs⟩⟩
    · rw [List.length_cons, Nat.succ_mul]
      omega

end Codec
end

theorem Topology.length_audioOutputs_le {most : Nat} : ∀ codecs : List Codec, (∀ c ∈ codecs, c.nodes.length ≤ most) →
    (audioOutputs ⟨codecs⟩).length ≤ codecs.length * most
  | [], _ => Nat.zero_le _
  | c :: codecs, h => by
    obtain ⟨hc, hcodecs⟩ := List.forall_mem_cons.1 h
    have hrest := length_audioOutputs_le codecs hcodecs
    have hfirst := List.length_filter_le (·.2.isAudioOutput) c.nodes
    simp only [audioOutputs, List.flatMap_cons, List.length_append, List.length_map, List.length_cons, Nat.succ_mul] at hrest ⊢
    omega

/-- **The walk costs what the allowances of all codecs cost**, and finds no more converters than it may visit nodes. -/
theorem Topology.walk_spends (hpoll : config.poll.Bounded) (hn : max x.timerChecks 1 ≤ n) :
    Spends x n (Controller.Follows config) (x.walkCalls config) Topology.walk
      fun t => t.audioOutputs.length ≤ Controller.maxCodecs * config.maxWalkVisits := by
  apply spends_get_bind
  intro c _
  have hcodecs := c.length_codecAddresses_le
  apply Spends.le
  · apply (Codec.walkAll_spends hpoll hn _).bind
    rintro codecs ⟨hlength, hnodes⟩
    apply spends_pure
    calc (audioOutputs ⟨codecs⟩).length
        _ ≤ codecs.length * config.maxWalkVisits := length_audioOutputs_le codecs hnodes
        _ ≤ Controller.maxCodecs * config.maxWalkVisits := Nat.mul_le_mul_right _ (Nat.le_trans hlength hcodecs)
  · exact Nat.mul_le_mul_right _ hcodecs

/-! ### The streams -/

namespace Streams

theorem allocateEngines_spends (streamClass : StreamClass) : ∀ index descriptor count,
    Spends x n I count (allocateEngines streamClass index descriptor count) fun engines => engines.length = count
  | _, _, 0 => spends_pure rfl
  | index, descriptor, count + 1 => by
    apply Spends.le
    · apply (spends_allocate _).andThen
      intro list
      apply (spends_zero _).seq
      apply (allocateEngines_spends streamClass _ _ count).bind
      intro rest hrest
      exact spends_pure (congrArg (· + 1) hrest)
    · omega

/-- The one answer that says how many engines there are. -/
theorem capabilities_spends :
    Spends x n (Controller.Follows config) 1 Controller.capabilities fun caps => caps.totalStreams ≤ x.engines := by
  have hread : Spends x n (Controller.Follows config) 1 (read .word Register.gcap) fun v =>
      (GlobalCaps.mk (v.setWidth 16)).totalStreams ≤ x.engines := by
    apply spends_ask
    rintro h a v hallowed rfl
    exact hallowed rfl
  exact (hread.bind fun v hv => spends_pure (R := fun r => (GlobalCaps.mk r).totalStreams ≤ x.engines) hv).bind
    fun r hr => spends_pure (R := fun caps : GlobalCaps => caps.totalStreams ≤ x.engines) (a := ⟨r⟩) hr

theorem allocate_spends : Spends x n (Controller.Follows config) (4 + x.engines) allocate (Fits x) := by
  apply Spends.le
  · apply capabilities_spends.bind (k := 3 + x.engines)
    intro caps hcaps
    unfold GlobalCaps.totalStreams at hcaps
    apply Spends.le
    · apply (spends_note _).seq
      apply (allocateEngines_spends _ _ _ _).bind
      intro input hinput
      apply (allocateEngines_spends _ _ _ _).bind
      intro output houtput
      apply (allocateEngines_spends _ _ _ _).bind
      intro bidirectional hbidirectional
      apply (spends_allocate _).andThen
      intro positions
      apply (spends_zero _).seq
      apply (spends_writeAddress _ _ _).seq
      apply (spends_note _).seq
      apply spends_pure
      change input.length + output.length + bidirectional.length ≤ x.engines
      omega
    · omega
  · omega

theorem resetEngine_spends (hpoll : poll.Bounded) (base : BitVec 32) :
    Spends x n I (4 + 2 * poll.checks .streamReset) (resetEngine base (poll.limit .streamReset)) fun _ => True := by
  apply Spends.le
  · apply (spends_read16 _).andThen
    intro control
    apply (spends_write _ _ _).seq
    apply (spends_waitFor hpoll .streamReset (spends_look16 _ _)).seq
    apply (spends_read16 _).andThen
    intro control
    apply (spends_write _ _ _).seq
    exact spends_waitFor hpoll .streamReset (spends_look16 _ _)
  · omega

theorem writePieces_spends (list : Region) : ∀ index pieces, Spends x n I 0 (writePieces list index pieces) fun _ => True
  | _, [] => spends_pure trivial
  | index, _ :: rest => by
    apply Spends.le
    · apply (spends_store64 _ _ _).seq
      apply (spends_store32 _ _ _).seq
      apply (spends_store32 _ _ _).seq
      exact writePieces_spends list _ rest
    · omega

theorem allocateSample_spends (waveform : Array Byte) (parts : Nat) :
    Spends x n I 2 (allocateSample waveform parts) fun _ => True := by
  unfold allocateSample
  cases BufferList.checkShape waveform.size parts with
  | error e => exact (spends_fail e).le (Nat.zero_le _)
  | ok u =>
    apply Spends.andThen (j := 1) (k := 1) (spends_allocate waveform.size)
    intro sample
    cases BufferList.split sample.address waveform.size parts with
    | error e => exact (spends_free sample).seq (spends_fail e)
    | ok pieces => exact ((spends_fill _ _ _).seq (spends_pure trivial)).le (Nat.zero_le _)

theorem formatConverters_spends (hpoll : config.poll.Bounded) (hn : max x.timerChecks 1 ≤ n) :
    ∀ converters : List NodeAddr, Spends x n (Controller.Follows config)
      (converters.length * (2 * x.exchangeCalls config)) (formatConverters converters) fun _ => True
  | [] => Spends.le (spends_pure trivial) (Nat.zero_le _)
  | addr :: rest => by
    apply spends_get_bind
    intro c _
    apply Spends.le
    · apply (spends_note _).seq
      apply (Controller.command_spends hpoll hn _).andThen
      intro _
      apply (Controller.command_spends hpoll hn _).andThen
      intro _
      exact formatConverters_spends hpoll hn rest
    · rw [List.length_cons, Nat.succ_mul rest.length]
      omega

theorem dropSample_spends (earlier : Option Region) : Spends x n I 1 (dropSample earlier) fun _ => True := by
  cases earlier with
  | none => exact (spends_pure trivial).le (Nat.zero_le 1)
  | some g => exact spends_free g

/-- What is known of the controller and the streams while the streams are set up. -/
def Paired (x : Extent) (config : Config) (t : Controller × Streams) : Prop := t.1.Follows config ∧ t.2.Fits x

theorem onController_spends {k : Nat} {R : α → Prop} {p : Procedure Controller α}
    (hp : Spends x n (Controller.Follows config) k p R) : Spends x n (Paired x config) k (onController p) R := by
  apply spends_get_bind
  intro t ht
  exact spends_on hp ht.1 fun t c ht hc => ⟨hc, ht.2⟩

theorem program_spends (hpoll : config.poll.Bounded) (hn : max x.timerChecks 1 ≤ n) (topology : Topology)
    (waveform : Array Byte) (houtputs : topology.audioOutputs.length ≤ Controller.maxCodecs * config.maxWalkVisits) :
    Spends x n (Paired x config) (x.programCalls config) (program topology waveform) fun _ => True := by
  have hconverters : Spends x n (Controller.Follows config)
      (Controller.maxCodecs * config.maxWalkVisits * (2 * x.exchangeCalls config))
      (formatConverters topology.audioOutputs) fun _ => True :=
    (formatConverters_spends hpoll hn _).le (Nat.mul_le_mul_right _ houtputs)
  rw [program_eq]
  apply spends_get_bind
  rintro ⟨c, s⟩ ⟨hc, hs⟩
  dsimp only
  rw [hc.1]
  cases s.output[config.outputStream]? with
  | none => exact (spends_fail _).le (Nat.zero_le _)
  | some engine =>
    apply Spends.le
    · apply (resetEngine_spends hpoll _).seq
      apply spends_modify_seq fun t ht => ⟨ht.1, ht.2⟩
      apply (dropSample_spends s.sample).seq
      apply (allocateSample_spends _ _).andThen
      intro sample
      apply (writePieces_spends _ _ _).seq
      apply (spends_write _ _ _).seq
      apply (spends_write _ _ _).seq
      apply (spends_writeAddress _ _ _).seq
      apply (spends_write _ _ _).seq
      apply (spends_note _).seq
      apply spends_modify_seq fun t ht => ⟨ht.1, ht.2⟩
      exact (onController_spends hconverters).seq (spends_pure trivial)
    · unfold Extent.programCalls
      omega

theorem start_spends (streams : Streams) : Spends x n (Controller.Follows config) 7 streams.start fun _ => True := by
  apply spends_get_bind
  intro c _
  cases streams.programmedEngine with
  | none => exact (spends_fail _).le (Nat.zero_le _)
  | some engine =>
    apply Spends.le
    · apply (spends_read16 _).andThen
      intro low
      apply (spends_read8 _).andThen
      intro high
      apply (spends_write _ _ _).seq
      apply (spends_read _ _).andThen
      intro sync
      apply spends_when (spends_write _ _ _)
      apply (spends_write _ _ _).seq
      exact spends_when (spends_write _ _ _) (spends_note _)
    · omega

theorem stopEngine_spends (hpoll : poll.Bounded) (engine : StreamEngine) :
    Spends x n I (2 + poll.checks .streamReset) (stopEngine engine (poll.limit .streamReset)) fun _ => True := by
  apply Spends.le
  · apply (spends_read16 _).andThen
    intro control
    apply (spends_write _ _ _).seq
    apply (spends_waitFor hpoll .streamReset (spends_look16 _ _)).seq
    exact spends_note _
  · omega

theorem freeAll_spends : ∀ regions : List Region, Spends x n I regions.length (freeAll regions) fun _ => True
  | [] => spends_pure trivial
  | g :: rest => by
    apply Spends.le
    · exact (spends_free g).seq (freeAll_spends rest)
    · rw [List.length_cons]
      omega

theorem Fits.length_regions_le {s : Streams} (hs : s.Fits x) : s.regions.length ≤ x.engines + 2 := by
  have hsample : s.sample.toList.length ≤ 1 := by cases s.sample <;> simp
  unfold Fits at hs
  simp only [regions, List.length_append, List.length_map, List.length_reverse, List.length_singleton]
  omega

theorem release_spends (hpoll : config.poll.Bounded) {streams : Streams} (hs : streams.Fits x) :
    Spends x n (Controller.Follows config) (x.releaseCalls config) streams.release fun _ => True := by
  have hregions := hs.length_regions_le
  have hback : Spends x n (Controller.Follows config) (4 + x.engines) (do
      writeAddress Register.dplbase Register.dpubase 0
      freeAll streams.regions) fun _ => True :=
    ((spends_writeAddress _ _ _).seq (freeAll_spends _)).le (by omega)
  unfold release Extent.releaseCalls
  cases streams.programmedEngine with
  | none => exact hback.le (by omega)
  | some engine =>
    apply spends_get_bind
    intro c hc
    rw [hc.1]
    exact ((stopEngine_spends hpoll engine).seq hback).le (by omega)

end Streams

/-! ### The run -/

namespace Pci

theorem firstController_spends : ∀ all : List Candidate,
    Spends x n I all.length (firstController all) fun _ => True
  | [] => spends_fail _
  | candidate :: rest => by
    apply Spends.le
    · apply Spends.andThen (spends_ask fun _ _ _ _ _ => trivial)
      intro identity
      apply (spends_note _).seq
      apply spends_ite
      · intro _
        exact (spends_note _).seq (spends_pure trivial)
      · exact fun _ => firstController_spends rest
    · rw [List.length_cons]
      omega

theorem discover_spends : Spends x n I (1 + x.candidates) discover fun _ => True := by
  have hall : Spends x n I 1 candidates fun all => all.length ≤ x.candidates := by
    apply spends_ask
    rintro h a all hallowed rfl
    exact hallowed
  apply hall.bind
  intro all hlength
  exact ((spends_note _).seq (firstController_spends all)).le (by omega)

end Pci

namespace Bringup

variable {waveform : Array Byte} {identity : Pci.Identity}

theorem onController_spends {k : Nat} {R : α → Prop} {p : Procedure Controller α}
    (hp : Spends x n (Controller.Follows config) k p R) : Spends x n (Follows x config) k (onController p) R := by
  apply spends_get_bind
  intro b hb
  exact spends_on hp hb.1 fun b c hb hc => ⟨hc, hb.2⟩

theorem onStreams_spends {k : Nat} {R : α → Prop} {streams : Streams} {p : Procedure (Controller × Streams) α}
    (hp : Spends x n (Streams.Paired x config) k p R) (hs : streams.Fits x) :
    Spends x n (Follows x config) k (onStreams streams p) R := by
  apply spends_get_bind
  intro b hb
  exact spends_on hp ⟨hb.1, hs⟩ fun _ t _ ht => ⟨ht.1, fun _ h => Option.some.inj h ▸ ht.2⟩

theorem play_spends (hpoll : config.poll.Bounded) (hn : max x.timerChecks 1 ≤ n) :
    Spends x n (Follows x config) (x.playCalls config) (play identity waveform) fun _ => True := by
  apply Spends.le
  · apply (onController_spends (Controller.reset_spends hpoll)).seq
    apply (onController_spends Controller.waitForCodecs_spends).seq
    apply (onController_spends Controller.scanCodecs_spends).andThen
    intro codecs
    apply (onController_spends Controller.suppressInterrupts_spends).seq
    apply (onController_spends (Controller.establishTransport_spends hpoll)).andThen
    intro transport
    apply (onController_spends Streams.allocate_spends).bind
    intro streams hstreams
    apply spends_modify_seq fun b hb => ⟨hb.1, fun _ h => Option.some.inj h ▸ hstreams⟩
    apply (onController_spends (Topology.walk_spends hpoll hn)).bind
    -- the walk bounds the converters that there are to program
    intro topology houtputs
    have hprogram : Spends x n (Streams.Paired x config) (x.programCalls config) (do
        return (← Streams.program topology waveform, (← get).2)) fun _ => True := by
      apply Spends.le
      · apply (Streams.program_spends hpoll hn topology waveform houtputs).andThen
        intro outputs
        exact spends_get_bind fun _ _ => spends_pure trivial
      · exact Nat.le_refl _
    apply (spends_note _).seq
    apply (onStreams_spends hprogram hstreams).andThen
    intro programmed
    apply (onController_spends (Streams.start_spends _)).seq
    apply spends_get_bind
    intro b hb
    exact spends_when (spends_stall _) (spends_pure trivial)
  · unfold Extent.playCalls Config.bringUpCalls
    omega

/-- **The sequence with everything taken down after it.** -/
theorem playThrough_spends (hpoll : config.poll.Bounded) (hn : max x.timerChecks 1 ≤ n) :
    Spends x n (Follows x config) (x.playCalls config + (x.releaseCalls config + config.tearDownCalls))
      (playThrough identity waveform) fun _ => True := by
  apply play_spends hpoll hn |>.andThen
  intro summary
  apply spends_get_bind
  intro b hb
  have hdown : Spends x n (Follows x config) config.tearDownCalls (do
      onController Controller.tearDownTransport
      return summary) fun _ => True :=
    (onController_spends (Controller.tearDownTransport_spends hpoll)).seq (spends_pure trivial)
  cases hstreams : b.streams with
  | none => exact hdown.le (Nat.le_add_left _ _)
  | some streams =>
    apply spends_modify_seq fun b hb => ⟨hb.1, nofun⟩
    exact (onController_spends (Streams.release_spends hpoll (hb.2 streams hstreams))).seq hdown

theorem tolerate_spends {k : Nat} {p : Procedure Bringup Unit} {notice : Error → Notice}
    (hp : Spends x n (Follows x config) k p fun _ => True) :
    Spends x n (Follows x config) k (tolerate p notice) fun _ => True := by
  unfold tolerate
  apply Spends.le
  · apply spends_attempt hp
    · exact fun _ _ => spends_pure trivial
    · exact fun e => spends_note (notice e)
  · omega

theorem abandon_spends (hpoll : config.poll.Bounded) :
    Spends x n (Follows x config) (x.releaseCalls config + config.tearDownCalls + 1) abandon fun _ => True := by
  have hrest : Spends x n (Follows x config) (config.tearDownCalls + 1) (do
      tolerate (onController Controller.tearDownTransport) .transportNotTornDown
      tolerate Procedure.release .controllerNotReleased) fun _ => True :=
    (tolerate_spends (onController_spends (Controller.tearDownTransport_spends hpoll))).seq (tolerate_spends spends_release)
  apply spends_get_bind
  intro b hb
  cases hstreams : b.streams with
  | none => exact hrest.le (by omega)
  | some streams =>
    apply Spends.le
    · apply (tolerate_spends (onController_spends (Streams.release_spends hpoll (hb.2 streams hstreams)))).seq
      exact hrest
    · omega

/-- **A run comes to an end**: on every platform, as long as every wait has a limit and a running timer is seen to have
expired after `x.timerChecks` looks at it, it is never stuck, and the calls it makes to the bus and the platform, those of
the cleanup among them, are bounded by what its configuration and the extent of the platform give. -/
theorem run_bounded (hpoll : config.poll.Bounded) (hn : max x.timerChecks 1 ≤ n) (s : σ) :
    Ensures x.world n (run config waveform) s []
      ⟨fun _ _ h => h.calls ≤ x.runCalls config, fun _ _ h => h.calls ≤ x.runCalls config,
        fun h => h.calls ≤ x.runCalls config, fun _ => False⟩ := by
  have hrun : Spends x n (fun _ : σ => True) (x.runCalls config) (run config waveform) fun _ => True := by
    have hfresh : Follows x config { controller := { config } } := ⟨⟨rfl, nofun⟩, nofun⟩
    apply Spends.le
    · apply Pci.discover_spends.andThen
      rintro ⟨candidate, identity⟩
      apply Spends.seq (spends_ask fun _ _ _ _ _ => trivial)
      apply (spends_within (playThrough_spends hpoll hn) hfresh).bind
      rintro ⟨e | summary, b⟩ hb
      · apply (spends_note _).seq
        exact (spends_within (abandon_spends hpoll) hb).bind fun _ _ => spends_fail e
      · apply (spends_release.seq ((spends_note _).seq (spends_pure trivial))).le
        omega
    · unfold Extent.runCalls
      omega
  have hends := hrun s [] trivial
  rw [show History.calls [] + x.runCalls config = x.runCalls config from Nat.zero_add _] at hends
  apply hends.mono
  · exact fun _ _ _ hh => hh.2.2
  · exact fun _ _ _ hh => hh.2
  · exact fun _ hcalls => hcalls
  · exact fun _ hstuck => hstuck

/-- With three checks for every wait, two looks at the timer, and a controller of four engines alone on its bus. -/
theorem run_bounded_of_three_checks : (PollPolicy.uniform (.iterations 3)).Bounded ∧ max 2 1 ≤ 2 ∧
    Ensures (Extent.world ⟨1, 4, 2⟩) 2 (run { poll := .uniform (.iterations 3) } #[]) () []
      ⟨fun _ _ h => h.calls ≤ 971254, fun _ _ h => h.calls ≤ 971254, fun h => h.calls ≤ 971254, fun _ => False⟩ := by
  have hpoll : (PollPolicy.uniform (.iterations 3)).Bounded := by
    intro site
    cases site <;> exact nofun
  have hcalls : Extent.runCalls ⟨1, 4, 2⟩ { poll := .uniform (.iterations 3) } = 971254 := by decide
  rw [← hcalls]
  exact ⟨hpoll, by decide, run_bounded hpoll (by decide) ()⟩

end Bringup
end AudioBringup
