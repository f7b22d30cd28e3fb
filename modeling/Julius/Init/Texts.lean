import Julius.Init.Console
import Julius.Lib.Lowering

set_option autoImplicit false

/- All that julius-init prints, wherever it is. -/
namespace Julius

open Interact

/-- The texts of init/src/main.c, and those its calls of the library print. -/
def initTexts : List String := [
  banner,
  "init: PID 1 starting\r\n",
  "mem: heap initialised at ",
  ", size 1 MiB\n",
  "init: mach_task_self() = ",
  "\r\n",
  "init: allocating bootstrap receive port...\r\n",
  "init: FATAL: port_allocate failed, kr=",
  "init: bootstrap receive port = ",
  "init: FATAL: port_insert_right failed, kr=",
  "init: WARNING: task_set_bootstrap_port failed, kr=",
  "init: bootstrap port established\r\n",
  "init: malloc self-test OK (64 bytes at ",
  ")\r\n",
  "\r\ninit: all systems nominal. JULIUS OS is alive.\r\n\r\n",
  "init: entering service loop (waiting for Mach messages)\r\n",
  "init: mach_msg recv error, kr=",
  "init: received msg id=",
  " from port=",
  "init: PING received, sending PONG\r\n",
  "init: unknown message, ignoring\r\n",
  "\n!!! JULIUS PANIC: ",
  "mem_init: mach_vm_allocate failed",
  "cannot allocate bootstrap port",
  "cannot insert send right",
  "self-test: malloc returned NULL",
  "\n"]

/-- What a trap writes is one of the texts or a number. -/
def Trap.Tells : Trap → Prop
  | .write _ text => text ∈ initTexts ∨ ∃ v, text = (putHexText v (fun _ => '\x00')).1
  | _ => True

abbrev Tells {α : Type} (program : Libc α) : Prop := program.Asks Trap.Tells (fun _ => True)

theorem juliusPuts_tells {s : String} (member : s ∈ initTexts) : Tells (juliusPuts s) :=
  ⟨Or.inl member, fun _ => trivial⟩

theorem juliusPutHex_tells (v : Word) : Tells (juliusPutHex v) := by
  rw [juliusPutHex_eq v (fun _ => '\x00')]
  exact ⟨Or.inr ⟨v, rfl⟩, fun _ => trivial⟩

theorem juliusPanic_tells {α : Type} {msg : String} (member : msg ∈ initTexts) :
    Tells (juliusPanic msg : Libc α) := by
  refine (juliusPuts_tells (by simp [initTexts])).bind fun _ => ?_
  refine (juliusPuts_tells member).bind fun _ => ?_
  exact (juliusPuts_tells (by simp [initTexts])).bind fun _ => trivial

/-- A value printed between two texts. -/
theorem report_tells {α : Type} {before after : String} {v : Word} {next : Libc α}
    (opens : before ∈ initTexts) (closes : after ∈ initTexts) (rest : Tells next) :
    Tells (do
      let _ ← juliusPuts before
      juliusPutHex v
      let _ ← juliusPuts after
      next) := by
  refine (juliusPuts_tells opens).bind fun _ => ?_
  refine (juliusPutHex_tells v).bind fun _ => ?_
  exact (juliusPuts_tells closes).bind fun _ => rest

theorem crlf_tells : "\r\n" ∈ initTexts := by simp [initTexts]

theorem juliusMemInit_tells : Tells juliusMemInit := by
  refine ⟨trivial, fun self => ⟨trivial, fun answer => ?_⟩⟩
  obtain ⟨kr, addr⟩ := answer
  by_cases failed : kr ≠ kernSuccess
  · show Tells (ite _ _ _)
    rw [if_pos failed]
    exact juliusPanic_tells (by simp [initTexts])
  · show Tells (ite _ _ _)
    rw [if_neg failed]
    exact report_tells (by simp [initTexts]) (by simp [initTexts]) trivial

theorem setupBootstrapPort_tells : Tells setupBootstrapPort := by
  refine ⟨trivial, fun self => ?_⟩
  refine (juliusPuts_tells (by simp [initTexts])).bind fun _ => ⟨trivial, fun answer => ?_⟩
  obtain ⟨kr, portName⟩ := answer
  by_cases failed : kr ≠ kernSuccess
  · show Tells (ite _ _ _)
    rw [if_pos failed]
    exact report_tells (by simp [initTexts]) crlf_tells (juliusPanic_tells (by simp [initTexts]))
  show Tells (ite _ _ _)
  rw [if_neg failed]
  refine report_tells (by simp [initTexts]) crlf_tells ?_
  refine ⟨trivial, fun (kr : KernReturn) => ?_⟩
  by_cases refused : kr ≠ kernSuccess
  · show Tells (ite _ _ _)
    rw [if_pos refused]
    exact report_tells (by simp [initTexts]) crlf_tells (juliusPanic_tells (by simp [initTexts]))
  show Tells (ite _ _ _)
  rw [if_neg refused]
  refine ⟨trivial, fun (kr : KernReturn) => ?_⟩
  have established : Tells (do
      let _ ← juliusPuts "init: bootstrap port established\r\n"
      return portName) :=
    (juliusPuts_tells (by simp [initTexts])).bind fun _ => trivial
  by_cases unset : kr ≠ kernSuccess
  · show Tells (ite _ _ _)
    rw [if_pos unset]
    exact report_tells (by simp [initTexts]) crlf_tells established
  · show Tells (ite _ _ _)
    rw [if_neg unset]
    exact established

theorem mallocEnter_tells (h : Heap) : Tells (mallocEnter h) := by
  unfold mallocEnter
  split
  · exact juliusMemInit_tells
  · trivial

theorem mallocBump_tells (h : Heap) (size : Word) : Tells (mallocBump h size) := by
  unfold mallocBump
  dsimp only
  split
  · refine ⟨trivial, fun self => ⟨trivial, fun answer => ?_⟩⟩
    obtain ⟨kr, addr⟩ := answer
    by_cases failed : kr ≠ kernSuccess
    · show Tells (ite _ _ _)
      rw [if_pos failed]
      trivial
    · show Tells (ite _ _ _)
      rw [if_neg failed]
      trivial
  · trivial

theorem mallocSelfTest_tells (heap : Heap) (memory : Memory) :
    Tells (mallocSelfTest heap memory) := by
  refine ((mallocEnter_tells heap).bind fun h => mallocBump_tells h 64).bind fun result => ?_
  obtain ⟨buf, heap⟩ := result
  by_cases none : buf = null
  · show Tells (ite _ _ _)
    rw [if_pos none]
    exact juliusPanic_tells (by simp [initTexts])
  · show Tells (ite _ _ _)
    rw [if_neg none]
    exact report_tells (by simp [initTexts]) (by simp [initTexts]) trivial

theorem bootInit_tells (memory : Memory) : Tells (bootInit memory) := by
  refine (juliusPuts_tells List.mem_cons_self).bind fun _ => ?_
  refine (juliusPuts_tells (by simp [initTexts])).bind fun _ => ?_
  refine juliusMemInit_tells.bind fun heap => ⟨trivial, fun self => ?_⟩
  refine report_tells (by simp [initTexts]) crlf_tells ?_
  refine setupBootstrapPort_tells.bind fun gBootstrapPort => ?_
  refine (mallocSelfTest_tells heap memory).bind fun _ => ?_
  exact (juliusPuts_tells (by simp [initTexts])).bind fun _ => trivial

theorem dispatch_tells (header : MachMsgHeader) : Tells (dispatch header) := by
  unfold dispatch
  split
  · refine (juliusPuts_tells (by simp [initTexts])).bind fun _ => ?_
    split
    · exact ⟨trivial, fun _ => trivial⟩
    · trivial
  · exact (juliusPuts_tells (by simp [initTexts])).bind fun _ => trivial

theorem received_tells (kr : KernReturn) (msg : JuliusSimpleMsg) : Tells (received kr msg) := by
  unfold received
  by_cases failed : kr ≠ kernSuccess
  · rw [if_pos failed]
    exact report_tells (by simp [initTexts]) crlf_tells trivial
  · rw [if_neg failed]
    refine (juliusPuts_tells (by simp [initTexts])).bind fun _ => ?_
    refine (juliusPutHex_tells _).bind fun _ => ?_
    refine report_tells (by simp [initTexts]) crlf_tells ?_
    exact (dispatch_tells msg.header).bind fun _ => trivial

/-- PID 1 prints its texts and numbers, and nothing else. -/
theorem juliusStart_tells (memory : Memory) (stack : JuliusSimpleMsg) :
    Tells (juliusStart memory stack).start ∧
      ∀ state, Tells ((juliusStart memory stack).body state) := by
  constructor
  · refine (bootInit_tells memory).bind fun init => ?_
    have entered : Tells (serviceLoop init.gBootstrapPort stack).start :=
      (juliusPuts_tells (by simp [initTexts])).bind fun _ => trivial
    exact entered.bind fun _ => trivial
  · rintro ⟨init, msg⟩
    have pass : Tells (servicePass init.gBootstrapPort msg) :=
      ⟨trivial, fun answer => received_tells (Prod.fst answer) ⟨Prod.snd answer⟩⟩
    exact pass.bind fun _ => trivial

/-- In a run with any kernel all that was asked is allowed. -/
theorem anyKernel_asked {σ : Type} {V : Server Trap Trap.Answer Panic σ} {allowed : Trap → Prop}
    {stops : Panic → Prop} (start : V.start.Asks allowed stops)
    (body : ∀ state, (V.body state).Asks allowed stops)
    {place : Server.Config Trap Trap.Answer Panic σ × List Event}
    (reached : V.Reachable anyKernel [] place) : ∀ event ∈ place.2, allowed event.1 := by
  have more : ∀ (history : List Event) (trap : Trap) (answer : trap.Answer),
      (∀ event ∈ history, allowed event.1) → allowed trap →
      ∀ event ∈ history ++ [⟨trap, answer⟩], allowed event.1 := by
    intro history trap answer held asked event member
    rcases List.mem_append.mp member with old | new
    · exact held event old
    · exact List.mem_singleton.mp new ▸ asked
  induction reached with
  | refl => exact nofun
  | tail before step ih =>
      have asks := Server.Reachable.asks start body before
      cases step with
      | drift moved => exact moved.elim
      | startAsk answered => exact answered ▸ more _ _ _ ih asks.1
      | enter => exact ih
      | pass => exact ih
      | ask answered => exact answered ▸ more _ _ _ ih asks.1
      | again => exact ih
      | leave => exact ih

end Julius
