import Mailgrid.Proofs.Job.Meets

/-!
# Jobs keep file trees sound

Whatever stages a job runs, and however they end, each place is there once in the
files that it leaves, and no name in them stands for a step up. `KeepsSound` says so
of a task.
-/

namespace Mailgrid.Job

/-- Are files sound after a task if they were before? -/
def KeepsSound (x : Task α) : Prop :=
  ∀ desk, desk.files.Sound → (x.run desk).2.files.Sound

theorem keeps_sound_makeDirectory (p : Path) : Keeps FileTree.Sound (makeDirectory p) :=
  meets_makeDirectory (fun h hm => h.makeDirectory hm) fun _ h => h

theorem keeps_sound_writeText (p : Path) (text : String) : Keeps FileTree.Sound (writeText p text) :=
  meets_writeText (fun h hw => h.write hw) fun _ h => h

theorem keepsAt_sound (job : Job) (source : Path) : KeepsAt FileTree.Sound job source :=
  ⟨keeps_sound_makeDirectory _, fun _ => keeps_sound_writeText _ _⟩

theorem keeps_sound_stage (job : Job) (stage : Stage) : Keeps FileTree.Sound (stage.run job) := by
  cases stage with
  | places =>
    exact (meets_checkPlaces job (keeps_sound_makeDirectory _) fun _ h => h).mono (fun _ h => h)
      (fun _ _ h => h.1) (fun _ h => h)
  | options => exact (meets_loadOptions job).mono (fun _ h => h) (fun _ _ h => h.1) (fun _ h => h)
  | documents => exact keeps_convertDocuments job fun _ _ _ _ s _ => keepsAt_sound job s
  | results => exact keeps_reportResults job

theorem keepsSound_stage (job : Job) (stage : Stage) : KeepsSound (stage.run job) :=
  (keeps_sound_stage job stage).files

/-- A job leaves sound files where it finds such. -/
theorem sound_run (job : Job) (stages : List Stage) {t : FileTree} (h : t.Sound) :
    (job.run stages t).desk.files.Sound := by
  rw [files_run]
  exact (Keeps.foldlM keeps_sound_stage stages job).files ⟨t, [], ""⟩ h

end Mailgrid.Job
