import MiniPostScript.Proofs.Session.Halt
import MiniPostScript.Proofs.Session.Reached

set_option autoImplicit false

namespace MiniPostScript

inductive Request where
  | feed (line : String)
  | reset
  | top

structure Reply where
  told : List Notice
  text : String
  prompt : String
  values : List Value
  count : Nat
  top : Except Error Value
  scoping : Scoping
  halted : Bool

def serveAll {State : Type} (serve : Request → State → State × Reply) : List Request → State → State × List Reply
  | [], s => (s, [])
  | request :: rest, s =>
      let (after, reply) := serve request s
      let (last, replies) := serveAll serve rest after
      (last, reply :: replies)

theorem serve_all_related {State State' : Type} (related : State → State' → Prop)
    (serve : Request → State → State × Reply) (serve' : Request → State' → State' × Reply)
    (alike : ∀ request s t, related s t →
      related (serve request s).1 (serve' request t).1 ∧ (serve request s).2 = (serve' request t).2)
    (requests : List Request) (s : State) (t : State') (start : related s t) :
    related (serveAll serve requests s).1 (serveAll serve' requests t).1 ∧
      (serveAll serve requests s).2 = (serveAll serve' requests t).2 := by
  induction requests generalizing s t with
  | nil => exact ⟨start, rfl⟩
  | cons request rest ih =>
      obtain ⟨still, reply⟩ := alike request s t start
      obtain ⟨last, replies⟩ := ih _ _ still
      simp only [serveAll]
      exact ⟨last, by rw [reply, replies]⟩

namespace Session

def reply (told : List Notice) (text : String) (s : Session) : Reply where
  told := told
  text := text
  prompt := s.prompt
  values := s.machine.stack.toList
  count := s.count
  top := s.top
  scoping := s.machine.scoping
  halted := s.machine.halted

def serve (request : Request) (s : Session) : Session × Reply :=
  match request with
  | .feed line => ((s.feed line).1, (s.feed line).1.reply (s.feed line).2 (s.respond line).2)
  | .reset => (s.reset, s.reset.reply [] "")
  | .top => (s, s.reply [] "")

end Session

namespace Run

def feed (line : String) (r : Run) : Run :=
  if r.machine.halted then { r with notices := [] } else (r.begin line).finish

-- Puts back all that lines can change. The limit is a setting, and they cannot change it.
def reset (scoping : Scoping) (r : Run) : Run :=
  { r with
    machine := { r.machine with stack := .empty, scopes := .ofGlobal .builtins, scoping := scoping, halted := false }
    depth := 0
    homes := [] }

def reply (settings : Settings) (told : List Notice) (r : Run) : Reply :=
  Session.reply told ("\n".intercalate (told.map Notice.text)) ⟨settings, r.machine⟩

def serve (settings : Settings) (request : Request) (r : Run) : Run × Reply :=
  match request with
  | .feed line => (r.feed line, (r.feed line).reply settings (r.feed line).notices.reverse)
  | .reset => (r.reset settings.scoping, (r.reset settings.scoping).reply settings [])
  | .top => (r, r.reply settings [])

end Run

namespace Session

-- An evaluator between two lines is all there is to a session, and has nothing left of the blocks that have run.
structure Keeps (settings : Settings) (s : Session) (r : Run) : Prop where
  set : s.settings = settings
  limit : r.limit = settings.maxDepth
  machine : r.machine = s.machine
  pending : r.pending = []
  depth : r.depth = 0
  homes : r.homes = []

section

variable (settings : Settings) (s : Session) (r : Run)

theorem new_keeps : Keeps settings (new settings) (.fresh settings) := ⟨rfl, rfl, rfl, rfl, rfl, rfl⟩

theorem reset_keeps (keeps : Keeps settings s r) : Keeps settings s.reset (r.reset settings.scoping) := by
  have renewed : s.reset = new settings := by rw [reset, keeps.set]
  rw [renewed]
  exact ⟨rfl, keeps.limit, rfl, keeps.pending, rfl, rfl⟩

theorem feed_keeps (line : String) (keeps : Keeps settings s r) :
    Keeps settings (s.feed line).1 (r.feed line) ∧ (s.feed line).2 = (r.feed line).notices.reverse := by
  cases halted : s.machine.halted with
  | true =>
      have ignored : r.feed line = { r with notices := [] } := by rw [Run.feed, keeps.machine, if_pos halted]
      rw [feed_halted line s halted, ignored]
      exact ⟨⟨keeps.set, keeps.limit, keeps.machine, keeps.pending, keeps.depth, keeps.homes⟩, rfl⟩
  | false =>
      have taken : r.feed line = (r.begin line).finish := by simp [Run.feed, keeps.machine, halted]
      have begun : r.begin line = Run.ofLine s.settings.maxDepth s.machine line := by
        rw [Run.begin_fresh line r keeps.depth keeps.homes, keeps.limit, keeps.machine, keeps.set]
      obtain ⟨depth, homes⟩ := Run.finish_nested 0 [] _ (Run.of_line_nested s.settings.maxDepth s.machine line)
      rw [feed_finish, taken, begun]
      exact ⟨⟨keeps.set, (Run.finish_limit _).trans (congrArg Settings.maxDepth keeps.set), rfl,
        Run.finish_pending _, depth, homes⟩, rfl⟩

theorem reply_keeps (told : List Notice) (text : String) (keeps : Keeps settings s r) :
    s.reply told text = Session.reply told text ⟨settings, r.machine⟩ := by
  rw [keeps.machine, ← keeps.set]

theorem serve_keeps (request : Request) (keeps : Keeps settings s r) :
    Keeps settings (s.serve request).1 (r.serve settings request).1 ∧
      (s.serve request).2 = (r.serve settings request).2 := by
  cases request with
  | feed line =>
      obtain ⟨after, told⟩ := feed_keeps settings s r line keeps
      refine ⟨after, ?_⟩
      simp only [serve, Run.serve, Run.reply, respond, told]
      exact reply_keeps settings _ _ _ _ after
  | reset => exact ⟨reset_keeps settings s r keeps, reply_keeps settings _ _ _ _ (reset_keeps settings s r keeps)⟩
  | top => exact ⟨keeps, reply_keeps settings s r _ _ keeps⟩

end

theorem reset_like_new (settings : Settings) (history later : List Request) :
    let used := (serveAll serve history (new settings)).1
    let kept := (serveAll (Run.serve settings) history (.fresh settings)).1
    (serveAll serve later used.reset).2 = (serveAll serve later (new settings)).2 ∧
    (serveAll (Run.serve settings) later (kept.reset settings.scoping)).2 =
      (serveAll (Run.serve settings) later (.fresh settings)).2 ∧
    (serveAll serve later (new settings)).2 = (serveAll (Run.serve settings) later (.fresh settings)).2 := by
  intro used kept
  have alike (requests : List Request) := serve_all_related (Keeps settings) serve (Run.serve settings)
    (fun request s r => serve_keeps settings s r request) requests
  have keeps : Keeps settings used kept := (alike history _ _ (new_keeps settings)).1
  have renewed : used.reset = new settings := by rw [reset, keeps.set]
  have first := (alike later _ _ (new_keeps settings)).2
  have again := (alike later _ _ (reset_keeps settings used kept keeps)).2
  rw [renewed] at again ⊢
  exact ⟨rfl, again.symm.trans first, first⟩

end Session

end MiniPostScript
