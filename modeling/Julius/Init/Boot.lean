import Julius.Init.Replies

set_option autoImplicit false

/- julius-init from its start to its service loop, for all answers of the kernel. -/
namespace Julius

open Interact

/-- The traps that set up the heap and the bootstrap port. -/
def Trap.IsSetup : Trap → Bool
  | .vmAllocate .. => true
  | .portAllocate .. => true
  | .portInsertRight .. => true
  | .taskSetBootstrapPort .. => true
  | _ => false

/-- The set-up traps of a history with their answers. -/
def setupEvents (history : List Event) : List Event := history.filter (fun event => event.1.IsSetup)

/-- A region is granted at an address other than zero, and it ends where a pointer
can still point. -/
def Event.Sound : Event → Prop
  | ⟨.vmAllocate _ _ size _, answer⟩ =>
      Prod.fst answer = kernSuccess →
        Prod.snd answer ≠ null ∧ (Prod.snd answer).toNat + size.toNat < 2 ^ 64
  | _ => True

/-- The failures that `julius_start` does not survive. -/
def Event.Fatal : Event → Prop
  | ⟨.vmAllocate .., answer⟩ => Prod.fst answer ≠ kernSuccess
  | ⟨.portAllocate .., answer⟩ => Prod.fst answer ≠ kernSuccess
  | ⟨.portInsertRight .., kr⟩ => kr ≠ kernSuccess
  | _ => False

/-- The kernel under PID 1: any answers, but for what a granted region is. -/
def bootKernel : World Trap Trap.Answer (List Event) where
  answers history trap answer after :=
    after = history ++ [⟨trap, answer⟩] ∧ Event.Sound ⟨trap, answer⟩
  drift _ _ := False

theorem bootKernel_still : bootKernel.Still := fun _ _ moved => moved

def BootFailed (history : List Event) : Prop := ∃ event ∈ history, Event.Fatal event

/-- The requests for memory in a history. -/
def regionRequests (history : List Event) : Nat :=
  history.countP fun event => match event.1 with
    | .vmAllocate .. => true
    | _ => false

theorem fatal_isSetup {event : Event} (fatal : event.Fatal) : event.1.IsSetup = true := by
  obtain ⟨trap, answer⟩ := event
  cases trap <;> first | rfl | exact fatal.elim

theorem bootFailed_setup (history : List Event) :
    BootFailed history ↔ ∃ event ∈ setupEvents history, Event.Fatal event := by
  constructor
  · intro failed
    obtain ⟨event, member, fatal⟩ := failed
    exact ⟨event, List.mem_filter.mpr ⟨member, fatal_isSetup fatal⟩, fatal⟩
  · intro failed
    obtain ⟨event, member, fatal⟩ := failed
    exact ⟨event, (List.mem_filter.mp member).1, fatal⟩

theorem regionRequests_setup (history : List Event) :
    regionRequests history = regionRequests (setupEvents history) := by
  unfold regionRequests setupEvents
  rw [List.countP_filter]
  apply List.countP_congr
  intro event _
  obtain ⟨trap, answer⟩ := event
  cases trap <;> simp [Trap.IsSetup]

theorem setupEvents_append (history : List Event) (event : Event) : setupEvents (history ++ [event]) =
    setupEvents history ++ if event.1.IsSetup = true then [event] else [] := by
  unfold setupEvents
  rw [List.filter_append]
  congr 1
  split
  · rename_i isSetup
    simp [isSetup]
  · rename_i other
    simp [other]

section

variable {α β : Type} {post : Except Panic β → List Event → Prop} {history : List Event}
  {done : List Event}

/-- Traps that set nothing up leave no mark. -/
theorem wp_boot_quiet {first : Libc α} {next : α → Libc β}
    (asks : first.Asks (fun trap => trap.IsSetup = false) (fun _ => False))
    (start : setupEvents history = done)
    (rest : ∀ value after, setupEvents after = done →
      (next value).wp bootKernel (fun _ _ => True) post after) :
    (first.bind next).wp bootKernel (fun _ _ => True) post history := by
  apply asks.wp_bind (P := fun history => setupEvents history = done)
    (fun s t moved => absurd moved (bootKernel_still s t)) _ (fun _ _ _ _ => trivial) start
    (fun _ _ never _ => never.elim) rest
  intro s trap answer t quiet answered held
  rw [answered.1, setupEvents_append, held, if_neg (by simp [quiet]), List.append_nil]

theorem isWrite_quiet (trap : Trap) (write : trap.IsWrite) : trap.IsSetup = false := by
  cases trap <;> first | rfl | exact write.elim

theorem wp_boot_print {first : Libc α} {next : α → Libc β}
    (asks : first.Asks Trap.IsWrite (fun _ => False)) (start : setupEvents history = done)
    (rest : ∀ value after, setupEvents after = done →
      (next value).wp bootKernel (fun _ _ => True) post after) :
    (first.bind next).wp bootKernel (fun _ _ => True) post history :=
  wp_boot_quiet (asks.mono isWrite_quiet (fun _ never => never)) start rest

theorem wp_boot_taskSelf {next : MachPort → Libc β} (start : setupEvents history = done)
    (rest : ∀ self after, setupEvents after = done →
      (next self).wp bootKernel (fun _ _ => True) post after) :
    (juliusMachTaskSelf.bind next).wp bootKernel (fun _ _ => True) post history :=
  wp_boot_quiet ⟨rfl, fun _ => trivial⟩ start rest

/-- A set-up trap is marked with the answer it gets. -/
theorem wp_boot_setup {trap : Trap} {next : trap.Answer → Libc β} (isSetup : trap.IsSetup = true)
    (start : setupEvents history = done)
    (rest : ∀ answer after, Event.Sound ⟨trap, answer⟩ →
      setupEvents after = done ++ [⟨trap, answer⟩] →
      (next answer).wp bootKernel (fun _ _ => True) post after) :
    ((Program.query trap).bind next).wp bootKernel (fun _ _ => True) post history := by
  apply (Program.wp_ask_of_still bootKernel_still _ _ _).mpr
  refine ⟨trivial, ?_⟩
  intro answer after answered
  apply rest answer after answered.2
  rw [answered.1, setupEvents_append, start, if_pos isSetup]

theorem wp_boot_panic (msg : String) (start : setupEvents history = done)
    (stopped : ∀ after, setupEvents after = done → post (.error ⟨msg⟩) after) :
    (juliusPanic msg : Libc β).wp bootKernel (fun _ _ => True) post history := by
  unfold juliusPanic
  simp only [Program.bind_eq]
  apply wp_boot_print (juliusPuts_asks _) start
  intro _ after held
  apply wp_boot_print (juliusPuts_asks _) held
  intro _ after held
  apply wp_boot_print (juliusPuts_asks _) held
  intro _ after held
  exact stopped after held

end

/-- The request of `julius_mem_init`, and its answer. -/
def heapEvent (task : MachPort) (answer : KernReturn × Word) : Event :=
  ⟨.vmAllocate task 0 heapInitialSize vmFlagsAnywhere, answer⟩

def portEvent (task : MachPort) (answer : KernReturn × MachPort) : Event :=
  ⟨.portAllocate task machPortRightReceive, answer⟩

def rightEvent (task name : MachPort) (kr : KernReturn) : Event :=
  ⟨.portInsertRight task name name machMsgTypeMakeSend, kr⟩

def bootstrapEvent (task name : MachPort) (kr : KernReturn) : Event :=
  ⟨.taskSetBootstrapPort task name, kr⟩

theorem wp_boot_memInit {history : List Event} (start : setupEvents history = []) :
    juliusMemInit.wp bootKernel (fun _ _ => True) (fun outcome after => match outcome with
      | .ok heap => ∃ task base, setupEvents after = [heapEvent task (kernSuccess, base)] ∧
          base ≠ null ∧ base.toNat + heapInitialSize.toNat < 2 ^ 64 ∧
          heap = ⟨base, base + heapInitialSize, base⟩
      | .error reason => ∃ task kr addr, setupEvents after = [heapEvent task (kr, addr)] ∧
          kr ≠ kernSuccess ∧ reason = ⟨"mem_init: mach_vm_allocate failed"⟩) history := by
  unfold juliusMemInit juliusVmAllocate
  simp only [Program.bind_eq, Program.pure_eq]
  apply wp_boot_taskSelf start
  intro task after held
  apply wp_boot_setup rfl held
  intro answer after sound held
  obtain ⟨kr, base⟩ := answer
  by_cases failed : kr ≠ kernSuccess
  · rw [if_pos failed, Program.wp_bind]
    apply wp_boot_panic _ held
    intro after held
    exact ⟨task, kr, base, held, failed, rfl⟩
  · rw [if_neg failed]
    have granted := sound (not_not.mp failed)
    apply wp_boot_print (juliusPuts_asks _) held
    intro _ after held
    apply wp_boot_print (juliusPutHex_asks _) held
    intro _ after held
    apply wp_boot_print (juliusPuts_asks _) held
    intro _ after held
    rw [not_not.mp failed] at held
    exact ⟨task, base, held, granted.1, granted.2, rfl⟩

theorem wp_boot_setupBootstrapPort {history done : List Event}
    (start : setupEvents history = done) :
    setupBootstrapPort.wp bootKernel (fun _ _ => True) (fun outcome after => match outcome with
      | .ok name => ∃ task kr, setupEvents after = done ++
          [portEvent task (kernSuccess, name), rightEvent task name kernSuccess,
            bootstrapEvent task name kr]
      | .error reason => ∃ task, (∃ kr name, setupEvents after = done ++ [portEvent task (kr, name)] ∧
            kr ≠ kernSuccess ∧ reason = ⟨"cannot allocate bootstrap port"⟩) ∨
          ∃ name kr, setupEvents after = done ++
              [portEvent task (kernSuccess, name), rightEvent task name kr] ∧
            kr ≠ kernSuccess ∧ reason = ⟨"cannot insert send right"⟩) history := by
  unfold setupBootstrapPort juliusPortAllocate juliusPortInsertRight juliusTaskSetBootstrapPort
  simp only [Program.bind_eq, Program.pure_eq]
  apply wp_boot_taskSelf start
  intro task after held
  apply wp_boot_print (juliusPuts_asks _) held
  intro _ after held
  apply wp_boot_setup rfl held
  intro answer after _ allocated
  obtain ⟨kr, name⟩ := answer
  by_cases failed : kr ≠ kernSuccess
  · rw [if_pos failed]
    apply wp_boot_print (juliusPuts_asks _) allocated
    intro _ after held
    apply wp_boot_print (juliusPutHex_asks _) held
    intro _ after held
    apply wp_boot_print (juliusPuts_asks _) held
    intro _ after held
    apply wp_boot_panic _ held
    intro after held
    exact ⟨task, Or.inl ⟨kr, name, held, failed, rfl⟩⟩
  · rw [if_neg failed]
    rw [not_not.mp failed] at allocated
    apply wp_boot_print (juliusPuts_asks _) allocated
    intro _ after held
    apply wp_boot_print (juliusPutHex_asks _) held
    intro _ after held
    apply wp_boot_print (juliusPuts_asks _) held
    intro _ after held
    apply wp_boot_setup rfl held
    intro (kr : KernReturn) after _ inserted
    rw [List.append_assoc] at inserted
    by_cases failed : kr ≠ kernSuccess
    · rw [if_pos failed]
      apply wp_boot_print (juliusPuts_asks _) inserted
      intro _ after held
      apply wp_boot_print (juliusPutHex_asks _) held
      intro _ after held
      apply wp_boot_print (juliusPuts_asks _) held
      intro _ after held
      apply wp_boot_panic _ held
      intro after held
      exact ⟨task, Or.inr ⟨name, kr, held, failed, rfl⟩⟩
    · rw [if_neg failed]
      rw [not_not.mp failed] at inserted
      apply wp_boot_setup rfl inserted
      intro (kr : KernReturn) after _ registered
      rw [List.append_assoc] at registered
      -- a failure here is printed, and nothing else comes of it
      by_cases failed : kr ≠ kernSuccess
      · rw [if_pos failed]
        apply wp_boot_print (juliusPuts_asks _) registered
        intro _ after held
        apply wp_boot_print (juliusPutHex_asks _) held
        intro _ after held
        apply wp_boot_print (juliusPuts_asks _) held
        intro _ after held
        apply wp_boot_print (juliusPuts_asks _) held
        intro _ after held
        exact ⟨task, kr, held⟩
      · rw [if_neg failed]
        apply wp_boot_print (juliusPuts_asks _) registered
        intro _ after held
        exact ⟨task, kr, held⟩

/-- A request that fits in the region in use is served without a trap. -/
theorem juliusMalloc_fits (h : Heap) (size : Word) (initialised : h.heapBase ≠ null)
    (room : ¬ h.heapEnd < h.heapPtr + align size heapAlign) : juliusMalloc h size =
      .ret (h.heapPtr, { h with heapPtr := h.heapPtr + align size heapAlign }) := by
  have bump : mallocBump h size =
      .ret (h.heapPtr, { h with heapPtr := h.heapPtr + align size heapAlign }) := by
    unfold mallocBump
    exact if_neg room
  unfold juliusMalloc mallocEnter
  rw [if_neg initialised]
  exact bump

/-- A fresh heap serves the self-test from its region. -/
theorem juliusMalloc_fresh (base : Word) (nonnull : base ≠ null)
    (fits : base.toNat + heapInitialSize.toNat < 2 ^ 64) :
    juliusMalloc ⟨base, base + heapInitialSize, base⟩ 64 =
      .ret (base, ⟨base, base + heapInitialSize, base + 64⟩) := by
  have rounded : align 64 heapAlign = 64 := by decide
  have initial : heapInitialSize.toNat = 2 ^ 20 := rfl
  have used : (64 : Word).toNat = 64 := rfl
  have room : ¬ base + heapInitialSize < base + align 64 heapAlign := by
    rw [rounded, BitVec.lt_def, BitVec.toNat_add, BitVec.toNat_add, used]
    omega
  have served := juliusMalloc_fits ⟨base, base + heapInitialSize, base⟩ 64 nonnull room
  rwa [rounded] at served

theorem wp_boot_mallocSelfTest {history done : List Event} (memory : Memory) (base : Word)
    (nonnull : base ≠ null) (fits : base.toNat + heapInitialSize.toNat < 2 ^ 64)
    (start : setupEvents history = done) :
    (mallocSelfTest ⟨base, base + heapInitialSize, base⟩ memory).wp bootKernel (fun _ _ => True)
      (fun outcome after => match outcome with
        | .ok result => setupEvents after = done ∧
            result.1 = ⟨base, base + heapInitialSize, base + 64⟩
        | .error _ => False) history := by
  unfold mallocSelfTest
  rw [juliusMalloc_fresh base nonnull fits]
  simp only [Program.bind_eq, Program.pure_eq, Program.ret_bind]
  rw [if_neg nonnull]
  apply wp_boot_print (juliusPuts_asks _) start
  intro _ after held
  apply wp_boot_print (juliusPutHex_asks _) held
  intro _ after held
  apply wp_boot_print (juliusPuts_asks _) held
  intro _ after held
  exact ⟨held, rfl⟩

/-- The set-up of a boot that succeeds, and what it leaves in the globals. -/
def BootedAs (init : InitState) (setup : List Event) : Prop :=
  ∃ heapTask task base kr, setup = [heapEvent heapTask (kernSuccess, base),
      portEvent task (kernSuccess, init.gBootstrapPort),
      rightEvent task init.gBootstrapPort kernSuccess,
      bootstrapEvent task init.gBootstrapPort kr] ∧
    base ≠ null ∧ init.heap = ⟨base, base + heapInitialSize, base + 64⟩

/-- The set-up of a boot that panics: it ends in the fatal answer. -/
def BootStopped (reason : Panic) (setup : List Event) : Prop :=
  (∃ event ∈ setup, event.Fatal) ∧ regionRequests setup = 1 ∧
    (reason = ⟨"mem_init: mach_vm_allocate failed"⟩ ∨ reason = ⟨"cannot allocate bootstrap port"⟩ ∨
      reason = ⟨"cannot insert send right"⟩)

theorem wp_boot_start (memory : Memory) (stack : JuliusSimpleMsg) :
    (juliusStart memory stack).start.wp bootKernel (fun _ _ => True)
      (Server.onStarted (fun state history => BootedAs state.1 (setupEvents history))
        (fun reason history => BootStopped reason (setupEvents history))) [] := by
  unfold juliusStart bootInit serviceLoop
  simp only [Program.bind_eq, Program.pure_eq]
  rw [Program.wp_bind]
  apply wp_boot_print (juliusPuts_asks _) rfl
  intro _ after held
  apply wp_boot_print (juliusPuts_asks _) held
  intro _ after held
  rw [Program.wp_bind]
  apply Program.wp_mono (wp_boot_memInit held) (fun _ _ _ => trivial)
  intro outcome after reached
  cases outcome with
  | error reason =>
      obtain ⟨task, kr, addr, held, failed, rfl⟩ := reached
      show BootStopped _ (setupEvents after)
      rw [held]
      exact ⟨⟨_, List.mem_singleton.mpr rfl, failed⟩, rfl, Or.inl rfl⟩
  | ok heap =>
      obtain ⟨heapTask, base, held, nonnull, fits, rfl⟩ := reached
      show Program.wp _ _ _ _ _
      apply wp_boot_taskSelf held
      intro _ after held
      apply wp_boot_print (juliusPuts_asks _) held
      intro _ after held
      apply wp_boot_print (juliusPutHex_asks _) held
      intro _ after held
      apply wp_boot_print (juliusPuts_asks _) held
      intro _ after held
      rw [Program.wp_bind]
      apply Program.wp_mono (wp_boot_setupBootstrapPort held) (fun _ _ _ => trivial)
      intro outcome after reached
      cases outcome with
      | error reason =>
          obtain ⟨task, stopped⟩ := reached
          show BootStopped _ (setupEvents after)
          rcases stopped with ⟨kr, name, held, failed, rfl⟩ | ⟨name, kr, held, failed, rfl⟩
          · rw [held]
            exact ⟨⟨portEvent task (kr, name), by simp, failed⟩, rfl, Or.inr (Or.inl rfl)⟩
          · rw [held]
            exact ⟨⟨rightEvent task name kr, by simp, failed⟩, rfl, Or.inr (Or.inr rfl)⟩
      | ok name =>
          obtain ⟨task, kr, held⟩ := reached
          show Program.wp _ _ _ _ _
          rw [Program.wp_bind]
          apply Program.wp_mono (wp_boot_mallocSelfTest memory base nonnull fits held)
            (fun _ _ _ => trivial)
          intro outcome after reached
          cases outcome with
          | error reason => exact reached.elim
          | ok result =>
              obtain ⟨held, heap⟩ := reached
              show Program.wp _ _ _ _ _
              apply wp_boot_print (juliusPuts_asks _) held
              intro _ after held
              show Program.wp _ _ _ _ _
              apply wp_boot_print (juliusPuts_asks _) held
              intro _ after held
              exact ⟨heapTask, task, base, kr, held, nonnull, heap⟩

/-- No pass sets anything up, and none stops. -/
theorem setup_rule (done : List Event) (port : MachPort) :
    PassRule bootKernel (fun _ _ => True) port (fun history => setupEvents history = done)
      (fun _ history => setupEvents history = done) where
  idleDrift s t moved := absurd moved (bootKernel_still s t)
  busyDrift _ s t moved := absurd moved (bootKernel_still s t)
  idleConsole s trap answer t write answered held := by
    rw [answered.1, setupEvents_append, held, if_neg (by simp [isWrite_quiet trap write]),
      List.append_nil]
  busyConsole _ s trap answer t write answered held := by
    rw [answered.1, setupEvents_append, held, if_neg (by simp [isWrite_quiet trap write]),
      List.append_nil]
  idleGuard _ _ _ _ := trivial
  busyGuard _ _ _ _ _ := trivial
  receive := by
    intro msg s held
    refine ⟨trivial, ?_⟩
    intro kr header t answered
    rw [ite_self, answered.1, setupEvents_append, held]
    exact List.append_nil _
  ignore _ _ held _ := held
  reply := by
    intro header s pong held answered
    refine ⟨trivial, ?_⟩
    intro answer t replied
    obtain ⟨_, _, rfl⟩ := pongFor_some answered
    rw [replied.1, setupEvents_append, held]
    exact List.append_nil _

/-- The loop invariant of PID 1: the set-up of its globals is all the set-up there was. -/
theorem wp_boot_body (memory : Memory) (stack : JuliusSimpleMsg)
    (state : InitState × JuliusSimpleMsg) (history : List Event)
    (booted : BootedAs state.1 (setupEvents history)) :
    ((juliusStart memory stack).body state).wp bootKernel (fun _ _ => True)
      (Server.onAgain (fun state history => BootedAs state.1 (setupEvents history))
        (fun _ _ => False)) history := by
  obtain ⟨init, msg⟩ := state
  show Program.wp _ _ _ ((servicePass init.gBootstrapPort msg).bind _) _
  rw [Program.wp_bind]
  apply Program.wp_mono
    ((setup_rule (setupEvents history) init.gBootstrapPort).wp_servicePass msg history rfl)
    (fun _ _ _ => trivial)
  intro outcome after reached
  cases outcome with
  | error reason => exact reached.elim
  | ok flow =>
      cases flow with
      | leave => exact reached.elim
      | again msg =>
          show BootedAs init (setupEvents after)
          rw [reached]
          exact booted

theorem booted_notFailed {init : InitState} {history : List Event}
    (booted : BootedAs init (setupEvents history)) : ¬ BootFailed history := by
  intro failed
  obtain ⟨heapTask, task, base, kr, setup, _, _⟩ := booted
  obtain ⟨event, member, fatal⟩ := (bootFailed_setup history).mp failed
  rw [setup] at member
  simp only [List.mem_cons, List.not_mem_nil, or_false] at member
  rcases member with rfl | rfl | rfl | rfl
  · exact fatal rfl
  · exact fatal rfl
  · exact fatal rfl
  · exact fatal

theorem booted_regionRequests {init : InitState} {history : List Event}
    (booted : BootedAs init (setupEvents history)) : regionRequests history = 1 := by
  obtain ⟨heapTask, task, base, kr, setup, _, _⟩ := booted
  rw [regionRequests_setup, setup]
  rfl

/-- What the globals of PID 1 rest on: a granted heap region with the self-test block
cut off, and a port whose receive right was allocated and which was given a send right. -/
def InitState.Established (init : InitState) (history : List Event) : Prop :=
  (∃ task base, heapEvent task (kernSuccess, base) ∈ history ∧ base ≠ null ∧
    init.heap = ⟨base, base + heapInitialSize, base + 64⟩) ∧
  ∃ task, portEvent task (kernSuccess, init.gBootstrapPort) ∈ history ∧
    rightEvent task init.gBootstrapPort kernSuccess ∈ history

theorem BootedAs.established {init : InitState} {history : List Event}
    (booted : BootedAs init (setupEvents history)) : init.Established history := by
  obtain ⟨heapTask, task, base, kr, setup, nonnull, heap⟩ := booted
  have happened : ∀ event ∈ setupEvents history, event ∈ history :=
    fun event member => (List.mem_filter.mp member).1
  rw [setup] at happened
  exact ⟨⟨heapTask, base, happened _ (by simp), nonnull, heap⟩,
    task, happened _ (by simp), happened _ (by simp)⟩

/-- PID 1 dies of nothing but the three fatal failures of its boot. Every complete boot
ends in a panic exactly if a heap allocation, the port allocation or the insertion of
the send right was refused, never in that of the self-test, and with a single request
for memory. From then on, whatever is received and sent, it neither returns nor
panics, its heap is there, and its bootstrap port is the one it was given the rights to. -/
theorem juliusStart_lives (memory : Memory) (stack : JuliusSimpleMsg) :
    (∀ outcome history, Exec bootKernel (juliusStart memory stack).start [] outcome history →
      ((∃ reason, outcome = .error reason) ↔ BootFailed history) ∧
        outcome ≠ .error ⟨"self-test: malloc returned NULL"⟩ ∧ regionRequests history = 1) ∧
    (∀ config history, (juliusStart memory stack).Reachable bootKernel [] (config, history) →
      config ≠ .left ∧ (∀ state reason, config ≠ .serving state (.halt reason)) ∧
        ∀ state, config.state? = some state → state.1.Established history) := by
  have safe : ∀ config, (juliusStart memory stack).Reachable bootKernel [] config →
      Server.Safe bootKernel (fun _ _ => True)
        (fun state history => BootedAs state.1 (setupEvents history))
        (fun reason history => BootStopped reason (setupEvents history)) (fun _ _ => False)
        config := by
    intro config reached
    apply Server.Reachable.safe _ _ _ (wp_boot_start memory stack) (wp_boot_body memory stack)
      reached
    · exact fun _ s t moved => absurd moved (bootKernel_still s t)
    · exact fun _ s t moved => absurd moved (bootKernel_still s t)
    · exact fun _ _ _ _ never => never
  constructor
  · intro outcome history run
    have ended := (wp_boot_start memory stack).exec run
    cases outcome with
    | ok state =>
        refine ⟨?_, by simp, booted_regionRequests ended⟩
        constructor
        · intro impossible
          obtain ⟨reason, impossible⟩ := impossible
          cases impossible
        · exact fun failed => absurd failed (booted_notFailed ended)
    | error reason =>
        obtain ⟨fatal, requests, reasons⟩ := ended
        refine ⟨⟨fun _ => (bootFailed_setup history).mpr fatal, fun _ => ⟨reason, rfl⟩⟩, ?_,
          (regionRequests_setup history).trans requests⟩
        rcases reasons with rfl | rfl | rfl <;> simp
  · intro config history reached
    refine ⟨?_, ?_, ?_⟩
    · intro left
      subst left
      exact safe _ reached
    · intro state reason stopped
      subst stopped
      exact safe _ reached
    · apply Server.Reachable.keeps safe (fun _ _ booted => booted.established) _ _ reached
      · exact fun _ s t moved => absurd moved (bootKernel_still s t)
      · intro state s trap answer t answered held
        obtain ⟨⟨heapTask, base, heapGranted, rest⟩, task, allocated, inserted⟩ := held
        rw [answered.1]
        exact ⟨⟨heapTask, base, List.mem_append_left _ heapGranted, rest⟩, task,
          List.mem_append_left _ allocated, List.mem_append_left _ inserted⟩

/-- A region at `2^32`, for as many bytes as there are above it. -/
def fixedRegion (size : Word) : KernReturn × Word :=
  if 2 ^ 32 + size.toNat < 2 ^ 64 then (kernSuccess, 0x100000000) else (3, null)

/-- A kernel that grants everything but the registration of the bootstrap port. -/
def unregisteredAnswer : (trap : Trap) → trap.Answer
  | .taskSelf => (0x103 : MachPort)
  | .vmAllocate _ _ size _ => fixedRegion size
  | .write _ text => BitVec.ofNat 64 text.length
  | .machMsg msg .. => (kernSuccess, msg)
  | .portAllocate .. => (kernSuccess, (0x203 : MachPort))
  | .portInsertRight .. => kernSuccess
  | .taskSetBootstrapPort .. => (5 : KernReturn)

theorem unregisteredAnswer_sound (trap : Trap) : Event.Sound ⟨trap, unregisteredAnswer trap⟩ := by
  cases trap with
  | vmAllocate task addr size flags =>
      have nonnull : (0x100000000 : Word) ≠ null := by decide
      have refusal : (3 : KernReturn) ≠ kernSuccess := by decide
      show (fixedRegion size).1 = kernSuccess →
        (fixedRegion size).2 ≠ null ∧ (fixedRegion size).2.toNat + size.toNat < 2 ^ 64
      unfold fixedRegion
      by_cases fits : 2 ^ 32 + size.toNat < 2 ^ 64
      · rw [if_pos fits]
        exact fun _ => ⟨nonnull, fits⟩
      · rw [if_neg fits]
        exact fun granted => absurd granted refusal
  | _ => trivial

/-- A boot without a registered bootstrap port reaches the loop all the same. -/
theorem juliusStart_lives_unregistered :
    let run := (juliusStart (fun _ => 0) ⟨simpleHeader 0 0⟩).start.runWith
      (fun history trap =>
        (unregisteredAnswer trap, history ++ [⟨trap, unregisteredAnswer trap⟩])) []
    (∃ state, run.1 = .ok state) ∧ ¬ BootFailed run.2 ∧ regionRequests run.2 = 1 := by
  intro run
  have boots : Exec bootKernel (juliusStart (fun _ => 0) ⟨simpleHeader 0 0⟩).start [] run.1 run.2 :=
    Program.exec_runWith (W := bootKernel) (by
      intro history trap
      exact ⟨rfl, unregisteredAnswer_sound trap⟩) _ []
  have lives := (juliusStart_lives (fun _ => 0) ⟨simpleHeader 0 0⟩).1 run.1 run.2 boots
  have loops : ∃ state, run.1 = .ok state := ⟨_, rfl⟩
  refine ⟨loops, ?_, lives.2.2⟩
  intro failed
  obtain ⟨state, ok⟩ := loops
  obtain ⟨reason, panicked⟩ := lives.1.mpr failed
  rw [ok] at panicked
  cases panicked

end Julius
