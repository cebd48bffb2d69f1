import ExamGeneratorNg.OdfConsumer
import ExamGeneratorNg.Equiv.LineTemplateParsing
import ExamGeneratorNg.ProgramTemplateRealization
import ExamGeneratorNg.Placeholder
import ExamGeneratorNg.RoseTree.Basic
import ExamGeneratorNg.RoseTree.Lemmas
import ExamGeneratorNg.Dom
import ExamGeneratorNg.Exam
import ExamGeneratorNg.ExamTemplateLoading
import ExamGeneratorNg.ExamTemplateRealization
import ExamGeneratorNg.Equiv.ProgramTemplateRealization
import ExamGeneratorNg.Equiv.AnswerHiding
import ExamGeneratorNg.Equiv.LineToNodes
import ExamGeneratorNg.Equiv.OdfConsumer
import ExamGeneratorNg.Effects
import ExamGeneratorNg.ExamGeneration
import ExamGeneratorNg.Equiv.ExamTemplateRealization
import ExamGeneratorNg.Equiv.ExamTemplateLoading
import ExamGeneratorNg.Promise.Basic
import ExamGeneratorNg.Promise.Lemmas
import ExamGeneratorNg.Ui.PromiseContext
import ExamGeneratorNg.Ui.ProjectTask
import ExamGeneratorNg.Equiv.ProgramRunning
import ExamGeneratorNg.Equiv.ProjectTask
import ExamGeneratorNg.Equiv.TaskProgress
import ExamGeneratorNg.Equiv.ExamGeneration
import ExamGeneratorNg.Stateful.Basic
import ExamGeneratorNg.Regex.Reads
import ExamGeneratorNg.Equiv.Placeholder
import ExamGeneratorNg.Equiv.PlaceholderFilling
import ExamGeneratorNg.Equiv.StringUtils
import ExamGeneratorNg.Equiv.ProgramTemplateParsing
import ExamGeneratorNg.Transition.Basic
import ExamGeneratorNg.Util.ProcessUtils
import ExamGeneratorNg.Equiv.ProcessUtils
import ExamGeneratorNg.Equiv.PromiseContext
import ExamGeneratorNg.Equiv.ListUtils
import ExamGeneratorNg.Neighbours.Basic
import ExamGeneratorNg.Promise.Histories
import ExamGeneratorNg.Equiv.TaskHistory
import ExamGeneratorNg.Equiv.TaskOutcome
import ExamGeneratorNg.Equiv.SavedDocuments
import ExamGeneratorNg.Equiv.CommandLine
import ExamGeneratorNg.FileTree.Basic
import ExamGeneratorNg.FileTree.Lemmas
import ExamGeneratorNg.Workspace
import ExamGeneratorNg.FileStream.Basic
import ExamGeneratorNg.Ui.WorkspaceTask
import ExamGeneratorNg.Equiv.OutputFiles
import ExamGeneratorNg.Equiv.Workspace
import ExamGeneratorNg.Equiv.ProgramTemplateLoading
import ExamGeneratorNg.Equiv.WorkspaceRuns
import ExamGeneratorNg.Equiv.Generations
import ExamGeneratorNg.Equiv.ExamFiles
import ExamGeneratorNg.Equiv.WorkspaceTask
import ExamGeneratorNg.Equiv.SingleTask
import ExamGeneratorNg.Ui.Application
import ExamGeneratorNg.Equiv.Application
import ExamGeneratorNg.Ui.Programs
import ExamGeneratorNg.Equiv.Programs
import ExamGeneratorNg.GccCompiler
import ExamGeneratorNg.Equiv.GccCompiler
import ExamGeneratorNg.Ui.GccTask
import ExamGeneratorNg.Equiv.GccTask
import ExamGeneratorNg.Equiv.Exams
import ExamGeneratorNg.Equiv.CanonicalSources
import ExamGeneratorNg.Equiv.Diagnostics
