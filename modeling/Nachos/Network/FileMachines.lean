import Nachos.FileSys.NamedFile
import Nachos.Network.Dialogue

/-! # Machines with file systems

Each machine of the network has a file system of its own. What a call asks of files is answered
by `FileSystem` and `OpenFile`, and where these go wrong the machine does not get on.
-/
namespace Nachos

structure LocalFiles where
  fileSystem : FileSystem
  f : Option OpenFile

namespace LocalFiles

def serve (S : Support) (heap : Heap) (chars : ℕ → Byte) (answers : Answers)
    (files : LocalFiles) : TcpOp → Option (Answers × LocalFiles)
  | .fileOpen name => do
    let f ← (files.fileSystem.openFile S heap name).toOption
    return ({ answers with opened := f.isSome },{ files with f := f })
  | .fileLength => do
    let f ← files.f
    -- the length is divided by an unsigned number
    return ({ answers with length := (f.length % 2 ^ 32).toNat },files)
  | .fileRead numBytes => do
    let f ← files.f
    let (_,into,f) ← (f.read S files.fileSystem.disk numBytes).toOption
    return ({ answers with bytes := into },{ files with f := some f })
  | .fileCreate name size => do
    let (_,fs) ← (files.fileSystem.create S heap name (BitVec.ofInt 32 size)).toOption
    return (answers,{ files with fileSystem := fs })
  | .fileWrite data => do
    let f ← files.f
    let (_,disk,f) ← (f.write S chars files.fileSystem.disk data data.length).toOption
    return (answers,⟨{ files.fileSystem with disk := disk },some f⟩)
  | _ => some (answers,files)

def contract (S : Support) : Contract TcpOp TcpOp.Resp LocalFiles where
  pre _ _ := True
  post op s r t := match op with
    | .fileOpen name => ∃ heap f, s.fileSystem.openFile S heap name = .ok f ∧ r = f.isSome ∧
        t = { s with f := f }
    | .fileLength => ∃ f, s.f = some f ∧ r = (f.length % 2 ^ 32).toNat ∧ t = s
    | .fileRead numBytes => ∃ f count f', s.f = some f ∧
        f.read S s.fileSystem.disk numBytes = .ok (count,r,f') ∧ t = { s with f := some f' }
    | .fileCreate name size => ∃ heap b fs,
        s.fileSystem.create S heap name (BitVec.ofInt 32 size) = .ok (b,fs) ∧
        t = { s with fileSystem := fs }
    | .fileWrite data => ∃ f chars count disk f', s.f = some f ∧
        f.write S chars s.fileSystem.disk data data.length = .ok (count,disk,f') ∧
        t = ⟨{ s.fileSystem with disk := disk },some f'⟩
    | _ => t = s

theorem toOption_eq_some {α : Type} {x : Outcome α} {a : α} (h : x.toOption = some a) :
    x = .ok a := by
  cases x with
  | ok b => exact congrArg Except.ok (Option.some.inj h)
  | error e => cases h

variable {S : Support} {heap : Heap} {chars : ℕ → Byte} {answers answers' : Answers}
  {files files' : LocalFiles} {op : TcpOp}

theorem serve_post (h : files.serve S heap chars answers op = some (answers',files'))
    {thread : TcpThread} {o o' : Office} {r : op.Resp} {sent : Option Message}
    (hop : o.perform thread answers' op = some (r,o',sent)) :
    (contract S).post op files r files' := by
  cases op with
  | fileOpen name =>
    obtain ⟨f,hf,heq⟩ := Option.bind_eq_some_iff.mp h
    cases heq
    cases hop
    exact ⟨heap,f,toOption_eq_some hf,rfl,rfl⟩
  | fileLength =>
    obtain ⟨f,hf,heq⟩ := Option.bind_eq_some_iff.mp h
    cases heq
    cases hop
    exact ⟨f,hf,rfl,rfl⟩
  | fileRead numBytes =>
    obtain ⟨f,hf,h⟩ := Option.bind_eq_some_iff.mp h
    obtain ⟨⟨count,into,f'⟩,hread,heq⟩ := Option.bind_eq_some_iff.mp h
    cases heq
    cases hop
    exact ⟨f,count,f',hf,toOption_eq_some hread,rfl⟩
  | fileCreate name size =>
    obtain ⟨⟨b,fs⟩,hcreate,heq⟩ := Option.bind_eq_some_iff.mp h
    cases heq
    exact ⟨heap,b,fs,toOption_eq_some hcreate,rfl⟩
  | fileWrite data =>
    obtain ⟨f,hf,h⟩ := Option.bind_eq_some_iff.mp h
    obtain ⟨⟨count,disk,f'⟩,hwrite,heq⟩ := Option.bind_eq_some_iff.mp h
    cases heq
    exact ⟨f,chars,count,disk,f',hf,toOption_eq_some hwrite,rfl⟩
  | connectedID | setConnectedID | stoppingConnection | setStoppingConnection | schedule | stopSemP
    | stopSemV | waitSemP | send | noBlockReceive | receive | memory | behind | crash =>
    cases h
    rfl

/-- Most operations do not touch the files. -/
theorem post_mailing (hop : op.Mailing) {r : op.Resp}
    (h : (contract S).post op files r files') : files' = files := by
  cases op with
  | fileOpen | fileLength | fileRead | fileCreate | fileWrite => exact hop.elim
  | connectedID | setConnectedID | stoppingConnection | setStoppingConnection | schedule | stopSemP
    | stopSemV | waitSemP | send | noBlockReceive | receive | memory | behind | crash => exact h

end LocalFiles

structure FileMachines where
  net : Machines
  files : ℤ → LocalFiles

namespace FileMachines

/-- A step of the network, where the files answer what they are asked. -/
def step (S : Support) (heap : Heap) (chars : ℕ → Byte) (w : FileMachines) :
    MachinesStep → Option FileMachines
  | .own a (.run .user answers) =>
    match w.net.acts a (.own a (.run .user answers)) with
    | none => (w.net.step (.own a (.run .user answers))).map fun net => { w with net := net }
    | some (answers,op) =>
      ((w.files a).serve S heap chars answers op).bind fun (answers,files) =>
        (w.net.step (.own a (.run .user answers))).map fun net =>
          ⟨net,Function.update w.files a files⟩
  | l => (w.net.step l).map fun net => { w with net := net }

variable {S : Support} {heap : Heap} {chars : ℕ → Byte} {w w' : FileMachines} {l : MachinesStep}

theorem step_of_acts_none (h : ∀ a, w.net.acts a l = none) :
    w.step S heap chars l = (w.net.step l).map fun net => { w with net := net } := by
  cases l with
  | own a l =>
    cases l with
    | run thread answers =>
      cases thread with
      | user => simp only [step, h a]
      | listener => rfl
    | call | listen | finish | wakeUp | elapse | arrive => rfl
  | lose | deliver => rfl

theorem step_net (h : w.step S heap chars l = some w') :
    ∃ l', w.net.step l' = some w'.net ∧
      (∀ a, w.net.Responds (LocalFiles.contract S) a l' (w.files a) (w'.files a)) ∧
      (l'.Loses → l.Loses) ∧ ∀ {a b left right w₀},
        Machines.OneCallEach a b left right w₀ w.net l →
          Machines.OneCallEach a b left right w₀ w.net l' := by
  by_cases hnone : ∀ a, w.net.acts a l = none
  · rw [step_of_acts_none hnone] at h
    obtain ⟨net,hnet,rfl⟩ := Option.map_eq_some_iff.mp h
    exact ⟨l,hnet,fun a => Machines.responds_of_eq (hnone a) rfl,id,fun hok => hok⟩
  obtain ⟨a,ha⟩ := not_forall.mp hnone
  obtain ⟨⟨answers,op⟩,hacts⟩ := Option.ne_none_iff_exists'.mp ha
  obtain ⟨c,p,rfl,hu,hop⟩ := Machines.acts_eq hacts
  simp only [step, hacts] at h
  obtain ⟨⟨answers',files⟩,hserve,h⟩ := Option.bind_eq_some_iff.mp h
  obtain ⟨net,hnet,rfl⟩ := Option.map_eq_some_iff.mp h
  refine ⟨_,hnet,fun b => ?_,False.elim,fun _ => trivial⟩
  dsimp only
  by_cases hb : b = a
  · subst hb
    rw [Function.update_self, Machines.Responds, Machines.acts_run hu, hop]
    exact fun r o sent hperform => LocalFiles.serve_post hserve hperform
  · rw [Function.update_of_ne hb]
    exact Machines.responds_of_eq (Machines.acts_of_ne (Ne.symm hb)) rfl

end FileMachines

/-- The runs of the machines. Their file systems have been formatted and called before. -/
def fileMachines (S : Support) : TransitionSystem FileMachines MachinesStep where
  init w := w.net.New ∧ ∀ a, (calls S).Reachable (w.files a).fileSystem ∧ (w.files a).f = none
  step w l w' := ∃ heap chars, w.step S heap chars l = some w'

end Nachos
