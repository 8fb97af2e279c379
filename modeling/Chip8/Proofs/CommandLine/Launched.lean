import Chip8.CommandLine.Launch
import Chip8.Proofs.CommandLine.Typed
import Chip8.Proofs.Listing.Lossless
import Chip8.Proofs.Machine.EarlyStop
import Chip8.Proofs.Machine.Reachable
import Chip8.Proofs.Machine.Reports
import Chip8.Proofs.Machine.Restart
import Chip8.Proofs.Machine.Traced

/-!
# Launching is running

A launched program does what it does on a machine that takes plain steps. Three things stand
between the two: the run ends early where waiting longer is of no use (`Run.finish_agrees`), it may
be traced (`Run.steps_trace`), and at its end the machine is reported on, which must not fail. On a
clock that stands still it does not: the delay timer was set at the reading that there still is
(`Machine.Still`), so that every step comes to an end or to a trap and the timer can be read.

  * `Machine.Still` : a valid machine whose timer has not gone down since it was set,
  * `World.steps`   : the plain steps of a new machine with a program,
  * `Launched`      : what a launch comes to,
  * `launch_agrees` : the command line agrees with the machine.
-/

namespace Chip8

/-! ## A clock that stands still -/

/-- No ticks pass where no time passes. -/
theorem ticks_of_still : ticksBetween ({} : Config).timerFrequency 0.0 0.0 = .ok 0 := by
  have hrate : Double.finite (Float.ofInt 60) = true := by decide +kernel
  have hfloor : Double.floor? ((0.0 - 0.0) * Float.ofInt 60) = some 0 := by decide +kernel
  show ticksBetween 60 0.0 0.0 = .ok 0
  simp only [ticksBetween, if_pos hrate, hfloor]

namespace Machine

/-- A valid machine whose delay timer was last set at the reading of a clock that stands still. -/
structure Still (m : Machine) : Prop where
  valid : m.Valid
  setTime : m.timer.setTime = 0.0

namespace Still

variable {m : Machine}

/-- No time passes on a clock that stands still, and so no ticks. -/
theorem onTime (h : m.Still) {input : Input} (hnow : input.now = 0.0) : OnTime {} m input := by
  intro x _
  refine ⟨0, ?_⟩
  rw [h.setTime, hnow]
  exact ticks_of_still

/-- The timer can be read while the clock stands still. -/
theorem delay (h : m.Still) : ∃ v, m.delay {} 0.0 = .ok v := by
  have hticks : ticksBetween ({} : Config).timerFrequency m.timer.setTime 0.0 = .ok 0 := by
    rw [h.setTime]
    exact ticks_of_still
  exact ⟨_, DelayTimer.read_of_ticks hticks⟩

/-- A step answers or traps, and leaves the timer set at the same reading. -/
theorem step (h : m.Still) {input : Input} (hnow : input.now = 0.0) :
    (m.step {} input).machine.Still ∧
      ((∃ done, (m.step {} input).result = .ok done) ∨
        ∃ t, (m.step {} input).result = .error (.trap t)) := by
  obtain ⟨hvalid, htotal⟩ := h.valid.step (h.onTime hnow)
  refine ⟨⟨hvalid, ?_⟩, htotal⟩
  by_cases hset : ∃ x, m.next? {} = some (.setTimer x)
  · obtain ⟨x, hx⟩ := hset
    have hsame : m = { m with timer := m.timer } := rfl
    obtain ⟨-, -, -, htimers⟩ := step_setTimer_same hsame hx input input
    rcases htimers with ⟨v, hstart, -⟩ | ⟨hkept, -⟩
    · rw [hstart]
      exact hnow
    · rw [hkept]
      exact h.setTime
  · have hsame : (m.step {} input).machine.timer = m.timer := by
      refine step_same {} input m .timer (by decide) fun i hi hmem => hset ?_
      obtain ⟨x, rfl⟩ := Instruction.eq_setTimer_of_mem_footprint hmem
      exact ⟨x, hi⟩
    rw [hsame]
    exact h.setTime

end Still

end Machine

/-- Steps on a clock that stands still come to an end or to a trap. -/
theorem Run.steps_still (host : Host) (hnow : ∀ k, host.now k = 0.0) (n : Nat) {r : Run}
    (h : r.machine.Still) :
    (steps {} host n r).machine.Still ∧
      ((∃ count, (steps {} host n r).result = .ok count) ∨
        ∃ t, (steps {} host n r).result = .error (.trap t)) := by
  induction n generalizing r with
  | zero => exact ⟨h, Or.inl ⟨r.retired, rfl⟩⟩
  | succ n ih =>
      have hinput : (host.input r.turns r.draws).now = 0.0 := hnow r.turns
      obtain ⟨hstill, htotal⟩ := h.step hinput
      rcases htotal with ⟨done, hdone⟩ | ⟨t, ht⟩
      · rw [steps_of_ok hdone]
        exact ih hstill
      · rw [steps_of_error ht]
        exact ⟨hstill, Or.inr ⟨t, rfl⟩⟩

/-! ## What is launched -/

/-- A run without pauses ends like plain steps, traced or not. -/
theorem Machine.run_trace (report : Bool) (host : Host) (n : Int) {m : Machine}
    (h : m.memory.size = 4096) :
    (m.run { trace := report } host none n).result = (m.steps {} host n.toNat).result ∧
      (m.run { trace := report } host none n).machine = (m.steps {} host n.toNat).machine := by
  have hanchored : m.Anchored { trace := report } := Or.inl (Int.dvd_refl 4096)
  have hagrees : Run.Agrees (m.run { trace := report } host none n)
      (m.steps { trace := report } host n.toNat) :=
    Run.finish_agrees n.toNat hanchored
  obtain ⟨hresult, hmachine⟩ := Run.steps_trace report host n.toNat #[] (r := Run.start m) h
  exact ⟨hagrees.result.trans hresult, hagrees.machine.trans hmachine⟩

namespace CommandLine

/-- A new machine with a program in it, at clock reading zero. -/
def loaded (image : Array Byte) : Machine := ((Machine.initial {} 0.0).load {} image).machine

/-- A host on which keys are held down and the clock stands still, with the random numbers of a
    world. -/
def World.still (w : World) (press : List Int) : Host :=
  ⟨fun key => press.contains key, fun _ => 0.0, w.random⟩

/-- Plain steps of a new machine with a program: never fewer than none, and never cut short. -/
def World.steps (w : World) (press : List Int) (image : Array Byte) (n : Int) : Outcome Nat :=
  (loaded image).steps {} (w.still press) n.toNat

/-- The exit status for the result of some steps. -/
def exitStatus : Except Fault Nat → Nat
  | .ok _ => 0
  | .error _ => 1

/-- A launch but for its log. -/
def Launch.unlogged : Launch → Launch
  | .ended status output _ => .ended status output ""
  | l => l

variable {w : World} {o : Options} {image : Array Byte} {n : Int}

/-- No pause at all is one that the host can keep. -/
theorem pauseFault?_zero : pauseFault? 0.0 = none := by
  have hzero : ((0.0 : Float) == 0.0) = true := by decide +kernel
  rw [pauseFault?, if_pos hzero]

/-- A machine is at the reading at which it was created when its program is loaded. -/
theorem still_loaded (image : Array Byte) : (loaded image).Still where
  valid := (Machine.Valid.initial 0.0).load image
  setTime := congrArg DelayTimer.setTime
    (Machine.load_sameBut {} image (Machine.initial {} 0.0) .timer (by decide))

/-- A program that is too large is not run. -/
theorem prepare_tooLarge (o : Options) (m : Machine) (h : 3584 < image.size) :
    ((prepare o image).outcome m).result = .error (.programTooLarge image.size 3584) := by
  have hlarge : ({ trace := o.trace } : Config).programLimit < image.size := by
    show (4096 - 0x200 : Int) < image.size
    omega
  rw [prepare, Effect.load, Options.config, if_pos hlarge]
  rfl

/-- A program that fits is loaded and run for the steps asked for. -/
theorem prepare_fits (m : Machine) (hsteps : o.steps = some n) (h : image.size ≤ 3584) :
    ((prepare o image).outcome m).result = .ok n ∧
      ((prepare o image).outcome m).machine = (m.load {} image).machine := by
  have hfits : ¬ ({} : Config).programLimit < image.size := by
    show ¬ (4096 - 0x200 : Int) < image.size
    omega
  rw [Machine.load_machine, if_neg hfits, prepare, Effect.load, hsteps,
    if_neg (show ¬ o.config.programLimit < image.size from hfits)]
  exact ⟨rfl, rfl⟩

/-- Plain steps come to an end or to a trap. -/
theorem World.still_steps (w : World) (press : List Int) (image : Array Byte) (n : Int) :
    (w.steps press image n).machine.Still ∧
      ((∃ count, (w.steps press image n).result = .ok count) ∨
        ∃ t, (w.steps press image n).result = .error (.trap t)) :=
  Run.steps_still (w.still press) (fun _ => rfl) n.toNat (still_loaded image)

/-- The run that is launched ends like plain steps. -/
theorem World.run_loaded (o : Options) (image : Array Byte) (n : Int) (hnow : w.now = 0.0) :
    let out := (loaded image).run o.config (w.host o) none n
    out.result = (w.steps o.press image n).result ∧
      out.machine = (w.steps o.press image n).machine := by
  have hhost : w.host o = w.still o.press := by
    rw [host, still, hnow]
  rw [hhost]
  exact Machine.run_trace o.trace (w.still o.press) n (still_loaded image).valid.memory

/-- The report on a run that came to its end or to a trap. -/
theorem exists_conclude {result : Except Fault Nat} {m : Machine} (hm : m.Still)
    (hresult : (∃ count, result = .ok count) ∨ ∃ t, result = .error (.trap t)) :
    ∃ picture messages, m.screen.render {} "#" "." = .ok picture ∧
      conclude o 0.0 result m
        = .ok ⟨exitStatus result, if o.screen then picture ++ "\n" else "", messages⟩ := by
  obtain ⟨delay, hdelay⟩ := hm.delay
  obtain ⟨text, htext⟩ := Machine.exists_dump hm.valid.registers hdelay
  obtain ⟨picture, hpicture⟩ := hm.valid.screen.exists_render "#" "."
  have hdump : m.dump o.config 0.0 = .ok text := htext
  have hrender : m.screen.render o.config.display "#" "." = .ok picture := hpicture
  rcases hresult with ⟨count, rfl⟩ | ⟨t, rfl⟩
  · refine ⟨picture, [.executed count, .final text], hpicture, ?_⟩
    rw [conclude, hdump, hrender]
    cases o.screen <;> rfl
  · refine ⟨picture, [.stopped t, .final text], hpicture, ?_⟩
    rw [conclude, hdump, hrender]
    cases o.screen <;> rfl

/-- A program that is too large ends the tool with a fault. -/
theorem execute_tooLarge (w : World) (o : Options) (h : 3584 < image.size) :
    execute w o image = .faulted (.programTooLarge image.size 3584) := by
  simp only [execute, prepare_tooLarge o _ h]

/-- A program that fits is run and reported on. -/
theorem execute_of_conclude (hsleep : o.sleep = 0.0) (hsteps : o.steps = some n)
    (hnow : w.now = 0.0) (hfits : image.size ≤ 3584) {r : Report}
    (h : conclude o w.now ((loaded image).run o.config (w.host o) none n).result
      ((loaded image).run o.config (w.host o) none n).machine = .ok r) :
    ∃ log, execute w o image = .ended r.status r.output log := by
  obtain ⟨hprepared, hmachine⟩ := prepare_fits (Machine.initial o.config w.now) hsteps hfits
  have hloaded : (Machine.load {} image (Machine.initial o.config w.now)).machine
      = loaded image := by
    rw [hnow]
    rfl
  simp only [execute, hprepared, hmachine, hloaded, hsleep, pauseFault?_zero, h]
  exact ⟨_, rfl⟩

/-- A new machine with a program that begins with no instruction is about to trap. -/
theorem trap?_loaded (hfits : image.size ≤ 3584) (hpair : 1 < image.size)
    (hd : Instruction.decode image[0] image[1] = none) :
    (loaded image).trap? {} = some .illegal := by
  have hp : (loaded image).fetched? {} = some ⟨0x200, image[0], image[1]⟩ :=
    (Machine.Valid.initial 0.0).fetched_load hfits hpair rfl
  have hhalted : (loaded image).halted = false :=
    Machine.load_sameBut {} image (Machine.initial {} 0.0) .halted (by decide)
  rw [Machine.trap?_of_fetched {} hhalted hp, hd]

/-- A trap in front of the first step ends the steps. -/
theorem World.steps_of_trap (w : World) (press : List Int) (n : Nat) {kind : TrapKind}
    (h : (loaded image).trap? {} = some kind) :
    ∃ t, (w.steps press image (n + 1 : Nat)).result = .error (.trap t) := by
  obtain ⟨pair, -, hs⟩ := Machine.step_of_trap {} ((w.still press).input 0 0) h
  have hfails : ((loaded image).step {} ((w.still press).input 0 0)).result
      = .error (.trap (pair.trap kind)) := by
    rw [hs]
  exact ⟨pair.trap kind,
    congrArg Outcome.result (Run.steps_of_error (r := Run.start (loaded image)) hfails)⟩

/-- A program that fits comes to what its plain steps come to. -/
theorem execute_fits (hsleep : o.sleep = 0.0) (hsteps : o.steps = some n) (hnow : w.now = 0.0)
    (hfits : image.size ≤ 3584) :
    ∃ picture log, (w.steps o.press image n).machine.screen.render {} "#" "." = .ok picture ∧
      execute w o image = .ended (exitStatus (w.steps o.press image n).result)
        (if o.screen then picture ++ "\n" else "") log := by
  obtain ⟨hstill, htotal⟩ := w.still_steps o.press image n
  obtain ⟨picture, messages, hpicture, hreport⟩ := exists_conclude (o := o) hstill htotal
  obtain ⟨hresult, hmachine⟩ := World.run_loaded o image n hnow
  rw [← hnow, ← hresult, ← hmachine] at hreport
  obtain ⟨log, hlog⟩ := execute_of_conclude hsleep hsteps hnow hfits hreport
  rw [hresult] at hlog
  exact ⟨picture, log, hpicture, hlog⟩

/-- What the launch of a program comes to for options that ask for `n` steps and no pauses, in a
    world where the clock stands at zero. -/
structure Launched (w : World) (args : List String) (o : Options) (image : Array Byte)
    (n : Int) : Prop where
  /-- A listing has one line for every row, also for a program that is too large. -/
  listed : o.list = true →
    let rows := (listing 0x200 image.toList).map Row.line
    launch w args = .ended 0 (unlines rows) "" ∧ lines (unlines rows) = rows
  /-- The only fault is a program that is too large. -/
  faulted : o.list = false →
    ((∃ f, launch w args = .faulted f) ↔ 3584 < image.size) ∧
      ∀ f, launch w args = .faulted f → f = .programTooLarge image.size 3584
  /-- Any other program comes to what its plain steps come to. -/
  ended : o.list = false → image.size ≤ 3584 →
    let plain := w.steps o.press image n
    ((∃ count, plain.result = .ok count) ∨ ∃ t, plain.result = .error (.trap t)) ∧
      ∃ picture log, plain.machine.screen.render {} "#" "." = .ok picture ∧
        launch w args
          = .ended (exitStatus plain.result) (if o.screen then picture ++ "\n" else "") log
  /-- Nothing but the log depends on whether instructions or details are reported. -/
  unlogged : ∀ (args' : List String) (trace debug : Bool),
    Options.read args' = .ok { o with trace := trace, debug := debug } →
    (launch w args').unlogged = (launch w args).unlogged

/-- A command line leads to what its options ask for. -/
theorem launch_of_read {args : List String} (hread : Options.read args = .ok o)
    (hfile : w.place.read o.program = .ok image) :
    launch w args = if o.list then .ended 0 (listingText image) "" else execute w o image := by
  simp only [launch, hread, hfile]

/-- What is reported of instructions and details shows in the log only. -/
theorem unlogged_execute (hsleep : o.sleep = 0.0) (hsteps : o.steps = some n) (hnow : w.now = 0.0)
    (image : Array Byte) (trace debug : Bool) :
    (execute w { o with trace := trace, debug := debug } image).unlogged
      = (execute w o image).unlogged := by
  by_cases hlarge : 3584 < image.size
  · rw [execute_tooLarge w _ hlarge, execute_tooLarge w o hlarge]
  · obtain ⟨picture, log, hpicture, hlaunch⟩ :=
      execute_fits hsleep hsteps hnow (Nat.not_lt.1 hlarge)
    obtain ⟨picture', log', hpicture', hlaunch'⟩ :=
      execute_fits (o := { o with trace := trace, debug := debug }) hsleep hsteps hnow
        (Nat.not_lt.1 hlarge)
    obtain rfl : picture = picture' := Except.ok.inj (hpicture.symm.trans hpicture')
    rw [hlaunch, hlaunch']
    rfl

/-- What each switch asks for, once the options and the file have been read. -/
theorem launched_of_read {args : List String} (hread : Options.read args = .ok o)
    (hsleep : o.sleep = 0.0) (hsteps : o.steps = some n) (hnow : w.now = 0.0)
    (hfile : w.place.read o.program = .ok image) : Launched w args o image n where
  listed := by
    intro hlist rows
    rw [launch_of_read hread hfile, if_pos hlist]
    exact ⟨rfl, lines_listing 0x200 image.toList⟩
  faulted := by
    intro hlist
    rw [launch_of_read hread hfile, hlist, if_neg Bool.false_ne_true]
    by_cases hlarge : 3584 < image.size
    · rw [execute_tooLarge w o hlarge]
      exact ⟨iff_of_true ⟨_, rfl⟩ hlarge, fun f hf => (Launch.faulted.inj hf).symm⟩
    · obtain ⟨picture, log, -, hlaunch⟩ := execute_fits hsleep hsteps hnow (Nat.not_lt.1 hlarge)
      rw [hlaunch]
      exact ⟨iff_of_false (fun ⟨_, hf⟩ => nomatch hf) hlarge, fun _ hf => nomatch hf⟩
  ended := by
    intro hlist hfits
    rw [launch_of_read hread hfile, hlist, if_neg Bool.false_ne_true]
    exact ⟨(w.still_steps o.press image n).2, execute_fits hsleep hsteps hnow hfits⟩
  unlogged := by
    intro args' trace debug hread'
    rw [launch_of_read hread hfile, launch_of_read hread' hfile]
    show (if o.list then _ else _ : Launch).unlogged = _
    split
    · rfl
    · exact unlogged_execute hsleep hsteps hnow image trace debug

/-- The command line agrees with the machine. A line that is typed in the usual way asks for what
    its options say, for any number of steps that can be read, and never for pauses. What is
    launched then, for this line or any other without pauses, is a listing, or a run that ends like
    plain steps of a new machine and is told from them by its exit status and the picture of its
    screen, unless the program is too large. -/
theorem launch_agrees :
    (∀ (program : String) (typed : List Typed) (o : Options), Plain program →
      (∀ t ∈ typed, ∀ text ∈ t.texts, Plain text) →
      typed.foldlM Typed.set? { program := program } = some o →
      Options.read (program :: typed.flatMap Typed.words) = .ok o ∧
        o.program = program ∧ o.sleep = 0.0 ∧ ∃ n, o.steps = some n) ∧
    (∀ (o : Options) (n : Int),
      (Numeral.digits 10 n.natAbs).length ≤ Integer.digitLimit →
      Plain (Numeral.decimal n) ∧
        Typed.set? o ⟨.steps, [Numeral.decimal n]⟩ = some { o with steps := some n }) ∧
    ∀ (w : World) (args : List String) (o : Options) (image : Array Byte) (n : Int),
      Options.read args = .ok o → o.sleep = 0.0 → o.steps = some n → w.now = 0.0 →
      w.place.read o.program = .ok image → Launched w args o image n := by
  refine ⟨fun program typed o hprogram htyped hset => ?_, fun o n hn => ?_, ?_⟩
  · obtain ⟨hkept, hsleep, hsteps⟩ := Typed.foldlM_set hset
    exact ⟨Options.read_typed hprogram htyped hset, hkept, hsleep, hsteps ⟨1000, rfl⟩⟩
  · refine ⟨plain_decimal n, ?_⟩
    rw [Typed.set?, Integer.readDecimal?_decimal hn, Option.map_some]
  · exact fun w args o image n hread hsleep hsteps hnow hfile =>
      launched_of_read hread hsleep hsteps hnow hfile

/-- A program whose first word is no instruction ends in the first step. -/
theorem launch_agrees_illegal :
    let place : Place := ⟨.directory [("prog.ch8", .file #[0xFF, 0xFF])], []⟩
    ∃ picture log, launch ⟨place, 0.0, fun _ => 0⟩
        ["prog.ch8", "--steps", "3", "--press", "1F", "--screen"]
      = .ended 1 (picture ++ "\n") log := by
  intro place
  let typed : List Typed := [⟨.steps, ["3"]⟩, ⟨.press, ["1F"]⟩, ⟨.screen, []⟩]
  let o : Options := { program := "prog.ch8", steps := some 3, press := [15], screen := true }
  obtain ⟨hreads, -, hlaunches⟩ := launch_agrees
  have hset : typed.foldlM Typed.set? { program := "prog.ch8" } = some o := by
    have hsteps : Integer.readDecimal? "3" = some 3 := by decide +kernel
    have hpress : readKey? "1F" = some 15 := by decide +kernel
    simp [typed, o, Typed.set?, hsteps, hpress]
  obtain ⟨hread, -⟩ := hreads "prog.ch8" typed o (by decide +kernel) (by decide +kernel) hset
  have hread : Options.read ["prog.ch8", "--steps", "3", "--press", "1F", "--screen"] = .ok o := by
    have hwords : "prog.ch8" :: typed.flatMap Typed.words
        = ["prog.ch8", "--steps", "3", "--press", "1F", "--screen"] := by decide +kernel
    rw [← hwords]
    exact hread
  have hfile : place.read "prog.ch8" = .ok #[0xFF, 0xFF] := by
    have hnull : ("prog.ch8".toList.contains '\x00') = false := by decide +kernel
    have hcomponents : Place.components "prog.ch8" = ["prog.ch8"] := by decide +kernel
    have hstart : "prog.ch8".startsWith "/" = false := by decide +kernel
    rw [Place.read, Place.follow, hnull, hcomponents, hstart]
    rfl
  have hlaunched := hlaunches ⟨place, 0.0, fun _ => 0⟩ _ o _ 3 hread rfl rfl rfl hfile
  obtain ⟨-, picture, log, -, hlaunch⟩ := hlaunched.ended rfl (by decide)
  have htrap : (loaded #[0xFF, 0xFF]).trap? {} = some .illegal :=
    trap?_loaded (by decide) (by decide) (by decide)
  obtain ⟨t, ht⟩ := World.steps_of_trap ⟨place, 0.0, fun _ => 0⟩ [15] 2 htrap
  refine ⟨picture, log, hlaunch.trans ?_⟩
  show Launch.ended (exitStatus (World.steps _ [15] #[0xFF, 0xFF] 3).result) _ _ = _
  rw [show (3 : Int) = ((2 + 1 : Nat) : Int) from rfl, ht]
  rfl

end CommandLine

end Chip8
