import InterviewFlow.Proofs.Evaluation
import InterviewFlow.Proofs.Normalization
import InterviewFlow.Session

/-! Sessions as a step relation. A request that fails is unseen by all others. One that is
answered changes what it names and nothing else, and a question nothing at all. So what was
saved to a file is loaded from it until something else is written there. -/

set_option autoImplicit false

namespace InterviewFlow

theorem mapError_eq_ok_iff {ε δ α : Type} {rename : ε → δ} {computation : Except ε α}
    {result : α} : computation.mapError rename = .ok result ↔ computation = .ok result := by
  cases computation <;> simp [Except.mapError]

/-! ## Files -/

namespace Directory

variable {directory other : Directory} {path name : String} {destination : Destination}
  {bytes : List UInt8}

/-- A walk finds the place of a file without looking at the files. -/
theorem walk_eq_entry {above : String} {parts : List String}
    (found : directory.walk above parts = .ok (.entry name)) :
    other.walk above parts = .ok (.entry name) := by
  induction parts generalizing above with
  | nil => cases found
  | cons part rest ih =>
      rw [walk] at found ⊢
      split at found
      · next stays =>
          rw [if_pos stays]
          exact ih found
      · next moves =>
          rw [if_neg moves]
          split at found
          · next up =>
              rw [if_pos up]
              exact ih found
          · next down =>
              rw [if_neg down]
              split at found
              · next last =>
                  rw [if_pos last]
                  exact found
              · split at found <;> cases found

theorem locate_eq_entry (sameRoot : other.root = directory.root)
    (found : directory.locate path = .ok (.entry name)) :
    other.locate path = .ok (.entry name) := by
  rw [locate] at found ⊢
  rw [fullPath, sameRoot, ← fullPath]
  split at found
  · cases found
  · next named =>
      rw [if_neg named]
      split at found
      · cases found
      · next short =>
          rw [if_neg short]
          exact walk_eq_entry found

/-- The file that a destination leads to. -/
def file? (directory : Directory) : Destination → Option String
  | .path path =>
      match directory.locate path with
      | .ok (.entry name) => some name
      | _ => none
  | .fullDevice => none

theorem file?_path_eq_some_iff :
    directory.file? (.path path) = some name ↔ directory.locate path = .ok (.entry name) := by
  rw [file?]
  split
  · next found =>
      rw [found]
      simp
  · next other =>
      refine iff_of_false nofun fun found => ?_
      exact other name found

theorem file?_congr (sameRoot : other.root = directory.root) (destination : Destination) :
    other.file? destination = directory.file? destination := by
  cases destination with
  | fullDevice => rfl
  | path path =>
      apply Option.ext
      intro name
      rw [file?_path_eq_some_iff, file?_path_eq_some_iff]
      exact ⟨locate_eq_entry sameRoot.symm, locate_eq_entry sameRoot⟩

/-- A write leaves the bytes in the file it leads to, and every other file as it was. -/
theorem write_eq_ok {next : Directory} (done : directory.write destination bytes = .ok next) :
    next.root = directory.root ∧
    (∀ name, directory.file? destination = some name → next.files.get? name = some bytes) ∧
    ∀ name, directory.file? destination ≠ some name →
      next.files.get? name = directory.files.get? name := by
  cases destination with
  | fullDevice =>
      rw [write] at done
      split at done
      · cases done
        exact ⟨rfl, nofun, fun _ _ => rfl⟩
      · cases done
  | path path =>
      rw [write] at done
      split at done
      · cases done
      · next name found =>
          cases done
          have leads := file?_path_eq_some_iff.2 found
          refine ⟨rfl, ?_, ?_⟩
          · intro own same
            rw [leads] at same
            cases same
            exact Entries.get?_put_self
          · intro other different
            refine Entries.get?_put_of_ne fun same => different ?_
            rw [leads, same]
      · cases done
      · cases done

theorem file?_of_write {next : Directory} (done : directory.write (.path path) bytes = .ok next) :
    ∃ name, directory.file? (.path path) = some name := by
  rw [write] at done
  split at done
  · cases done
  · next name found => exact ⟨name, file?_path_eq_some_iff.2 found⟩
  · cases done
  · cases done

theorem read_of_file? (leads : directory.file? (.path path) = some name)
    (stored : directory.files.get? name = some bytes) : directory.read path = .ok bytes := by
  rw [read, file?_path_eq_some_iff.1 leads]
  dsimp only
  rw [stored]

end Directory

/-! ## One request -/

/-- Where a request wants bytes to go. -/
def Request.destination? : Request → Option Destination
  | .save _ destination _ => some destination
  | .write path _ => some (.path path)
  | _ => none

/-- A request that only asks. -/
inductive Request.Asks : Request → Prop where
  | query {name : String} : Asks (.query name)
  | fetch {name : String} : Asks (.fetch name)
  | resolve {name : String} : Asks (.resolve name)
  | unresolved {name : String} : Asks (.unresolved name)
  | compare {name other : String} : Asks (.compare name other)

namespace Session

/-- The answer to a request with the session it leaves, one case a request. -/
inductive Steps (session : Session) : Request → Answer → Session → Prop where
  | compile {name source : String} {node : Node} :
      Compiler.standard.compile name source = .ok node →
      Steps session (.compile name source) (.kept node.body.length) (session.keep name node)
  | query {name : String} {node : Node} :
      session.nodes.get? name = some node →
      Steps session (.query name) (.report (node.report session.resolver)) session
  | fetch {name : String} {node : Node} :
      session.nodes.get? name = some node → Steps session (.fetch name) (.node node) session
  | bind {name : String} {tree : Tree} {predicate : Predicate} :
      predicateOf tree = .ok predicate →
      Steps session (.bind name tree) (.replaced (session.bindings.get? name))
        { session with bindings := session.bindings.insert name predicate }
  | unbind {name : String} :
      Steps session (.unbind name) (.removed (session.bindings.get? name))
        { session with bindings := session.bindings.erase name }
  | resolve {name : String} :
      Steps session (.resolve name) (.resolved (session.bindings.get? name)) session
  | unresolved {name : String} {node : Node} :
      session.nodes.get? name = some node →
      Steps session (.unresolved name) (.names (node.unresolved session.resolver)) session
  | append {name source : String} {addition node : Node} :
      session.nodes.get? source = some addition → session.nodes.get? name = some node →
      Steps session (.append name source)
        (.report ((node.append addition.body).report session.resolver))
        (session.keep name (node.append addition.body))
  | compare {name other : String} {left right : Node} :
      session.nodes.get? name = some left → session.nodes.get? other = some right →
      Steps session (.compare name other) (.verdict (left.equivalent right)) session
  | save {name : String} {destination : Destination} {version : UInt32} {node : Node}
      {directory : Directory} :
      session.nodes.get? name = some node →
      session.directory.write destination (Artifact.toBytes ⟨version, node⟩) = .ok directory →
      Steps session (.save name destination version)
        (.saved (Artifact.toBytes ⟨version, node⟩).length) { session with directory := directory }
  | write {path : String} {bytes : List UInt8} {directory : Directory} :
      session.directory.write (.path path) bytes = .ok directory →
      Steps session (.write path bytes) .written { session with directory := directory }
  | load {path : String} {name : Option String} {artifact : Artifact} :
      Artifact.load session.directory path = .ok artifact →
      Steps session (.load path name) (.node artifact.node)
        (session.keep (name.getD artifact.node.name) artifact.node)

variable {session next : Session} {request : Request} {answer : Answer}

theorem node_eq_ok_iff {name : String} {node : Node} :
    session.node name = .ok node ↔ session.nodes.get? name = some node := by
  rw [Session.node]
  cases session.nodes.get? name <;> simp

theorem step_eq_ok_iff :
    session.step request = .ok (answer, next) ↔ session.Steps request answer next := by
  constructor
  · intro done
    cases request <;>
      simp only [step, bind_eq_ok_iff, mapError_eq_ok_iff, node_eq_ok_iff, Artifact.save,
        pure, Except.pure, Except.ok.injEq, Prod.mk.injEq] at done
    case compile =>
      obtain ⟨node, compiled, rfl, rfl⟩ := done
      exact .compile compiled
    case query =>
      obtain ⟨node, kept, rfl, rfl⟩ := done
      exact .query kept
    case fetch =>
      obtain ⟨node, kept, rfl, rfl⟩ := done
      exact .fetch kept
    case bind =>
      obtain ⟨predicate, described, rfl, rfl⟩ := done
      exact .bind described
    case unbind =>
      obtain ⟨rfl, rfl⟩ := done
      exact .unbind
    case resolve =>
      obtain ⟨rfl, rfl⟩ := done
      exact .resolve
    case unresolved =>
      obtain ⟨node, kept, rfl, rfl⟩ := done
      exact .unresolved kept
    case append =>
      obtain ⟨addition, source, node, kept, rfl, rfl⟩ := done
      exact .append source kept
    case compare =>
      obtain ⟨left, kept, right, otherKept, rfl, rfl⟩ := done
      exact .compare kept otherKept
    case save =>
      obtain ⟨node, kept, directory, written, rfl, rfl⟩ := done
      exact .save kept written
    case write =>
      obtain ⟨directory, written, rfl, rfl⟩ := done
      exact .write written
    case load =>
      obtain ⟨artifact, loaded, rfl, rfl⟩ := done
      exact .load loaded
  · intro steps
    cases steps <;>
      simp_all [step, bind_eq_ok_iff, mapError_eq_ok_iff, node_eq_ok_iff, Artifact.save,
        pure, Except.pure]

theorem Steps.eq_of_asks (steps : session.Steps request answer next) (asks : request.Asks) :
    next = session := by
  cases asks <;> cases steps <;> rfl

/-- A request changes no file but the one that its bytes go to. -/
theorem Steps.files (steps : session.Steps request answer next) :
    next.directory.root = session.directory.root ∧
    ∀ name, request.destination?.bind session.directory.file? ≠ some name →
      next.directory.files.get? name = session.directory.files.get? name := by
  cases steps with
  | save _ written | write written =>
      obtain ⟨sameRoot, _, others⟩ := Directory.write_eq_ok written
      exact ⟨sameRoot, others⟩
  | _ => exact ⟨rfl, fun _ _ => rfl⟩

theorem Steps.stored {name path : String} {version : UInt32} {node : Node}
    (steps : session.Steps (.save name (.path path) version) answer next)
    (kept : session.nodes.get? name = some node) :
    ∃ file, next.directory.file? (.path path) = some file ∧
      next.directory.files.get? file = some (Artifact.toBytes ⟨version, node⟩) := by
  cases steps with
  | save found written =>
      cases kept.symm.trans found
      obtain ⟨file, leads⟩ := Directory.file?_of_write written
      obtain ⟨sameRoot, stored, _⟩ := Directory.write_eq_ok written
      exact ⟨file, (Directory.file?_congr sameRoot _).trans leads, stored file leads⟩

/-! ## A run of requests -/

/-- What requests leave of a session. -/
def after (session : Session) : List Request → Session
  | [] => session
  | request :: rest =>
      match session.step request with
      | .error _ => session.after rest
      | .ok (_, next) => next.after rest

theorem run_append (requests others : List Request) :
    session.run (requests ++ others) =
      session.run requests ++ (session.after requests).run others := by
  induction requests generalizing session with
  | nil => rfl
  | cons request rest ih =>
      rw [List.cons_append, run, run, after]
      cases session.step request with
      | error error => exact congrArg _ ih
      | ok answered => exact congrArg _ ih

theorem after_append (requests others : List Request) :
    session.after (requests ++ others) = (session.after requests).after others := by
  induction requests generalizing session with
  | nil => rfl
  | cons request rest ih =>
      rw [List.cons_append, after, after]
      split <;> exact ih

/-- A request that fails is unseen: the answers to all others and the session in the end are
those of a run without it. -/
theorem failed_request_unseen {before behind : List Request} {error : SessionError}
    (failed : (session.after before).step request = .error error) :
    session.run (before ++ behind) =
      session.run before ++ (session.after before).run behind ∧
    session.run (before ++ request :: behind) =
      session.run before ++ .error error :: (session.after before).run behind ∧
    session.after (before ++ request :: behind) = session.after (before ++ behind) := by
  refine ⟨run_append before behind, ?_, ?_⟩
  · rw [run_append, run, failed]
  · rw [after_append, after_append, after, failed]

/-- Questions leave the session as it is. -/
theorem after_eq_of_asks {requests : List Request} (asks : ∀ request ∈ requests, request.Asks) :
    session.after requests = session := by
  induction requests with
  | nil => rfl
  | cons request rest ih =>
      obtain ⟨first, others⟩ := List.forall_mem_cons.1 asks
      rw [after]
      split
      · exact ih others
      · next answer next done =>
          cases (step_eq_ok_iff.1 done).eq_of_asks first
          exact ih others

theorem files_after {requests : List Request} {name : String}
    (untouched : ∀ request ∈ requests,
      request.destination?.bind session.directory.file? ≠ some name) :
    (session.after requests).directory.root = session.directory.root ∧
    (session.after requests).directory.files.get? name =
      session.directory.files.get? name := by
  induction requests generalizing session with
  | nil => exact ⟨rfl, rfl⟩
  | cons request rest ih =>
      obtain ⟨first, others⟩ := List.forall_mem_cons.1 untouched
      rw [after]
      split
      · exact ih others
      · next answer next done =>
          obtain ⟨sameRoot, kept⟩ := (step_eq_ok_iff.1 done).files
          have leads : next.directory.file? = session.directory.file? :=
            funext (Directory.file?_congr sameRoot)
          rw [← leads] at others
          obtain ⟨rootAfter, fileAfter⟩ := ih others
          exact ⟨rootAfter.trans sameRoot, fileAfter.trans (kept name first)⟩

/-- A node that was saved in the current revision is loaded again after any requests that
write nothing to its file, whatever became of the node meanwhile. -/
theorem loads_what_was_saved {name path : String} {node : Node} {saved : Session}
    (kept : session.nodes.get? name = some node) (storable : Artifact.StorableNode node)
    (done : session.step (.save name (.path path) Artifact.currentVersion) = .ok (answer, saved))
    {requests : List Request}
    (untouched : ∀ request ∈ requests, request.destination?.bind saved.directory.file? ≠
      saved.directory.file? (.path path)) (target : Option String) :
    (saved.after requests).step (.load path target) = .ok (.node node,
      (saved.after requests).keep (target.getD node.name) node) := by
  obtain ⟨file, leads, stored⟩ := (step_eq_ok_iff.1 done).stored kept
  rw [leads] at untouched
  obtain ⟨sameRoot, sameFile⟩ := files_after untouched
  have readable := Directory.read_of_file? ((Directory.file?_congr sameRoot _).trans leads)
    (sameFile.trans stored)
  have loaded : Artifact.load (saved.after requests).directory path =
      .ok ⟨Artifact.currentVersion, node⟩ := by
    rw [Artifact.load, readable]
    exact Artifact.ofBytes_of_storable rfl storable
  exact step_eq_ok_iff.2 (.load loaded)

/-- The node grows after it was saved, and a write below its file fails. -/
example : (((start "/flows").keep "note" ⟨"note", [.heading "A"], .empty⟩).run
    [.save "note" (.path "a") 1, .append "note" "note", .write "a/b" [], .load "a" none])[3]? =
      some (.ok (.node ⟨"note", [.heading "A"], .empty⟩)) := by
  cbv

end Session

end InterviewFlow
