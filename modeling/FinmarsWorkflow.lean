import FinmarsWorkflow.Redelivery
import FinmarsWorkflow.Success
import FinmarsWorkflow.Nesting
import FinmarsWorkflow.Finite
import FinmarsWorkflow.Progress
import FinmarsWorkflow.Platform
import FinmarsWorkflow.Scheduler
import FinmarsWorkflow.Version
import FinmarsWorkflow.Relaunch
import FinmarsWorkflow.Overlap
import FinmarsWorkflow.Template
import FinmarsWorkflow.Imports
import FinmarsWorkflow.Timestamps
import FinmarsWorkflow.Chain.Hooks
import FinmarsWorkflow.Outputs
import FinmarsWorkflow.Launch
import FinmarsWorkflow.Resume
import FinmarsWorkflow.Cleanup
import FinmarsWorkflow.Schedules
import FinmarsWorkflow.Crontab
import FinmarsWorkflow.Encrypted
import FinmarsWorkflow.Append
import FinmarsWorkflow.Errors
import FinmarsWorkflow.Edits
import FinmarsWorkflow.Conditions
import FinmarsWorkflow.Standstill
import FinmarsWorkflow.Monitoring
import FinmarsWorkflow.Duplicates
import FinmarsWorkflow.Ascii
import FinmarsWorkflow.Pausing
import FinmarsWorkflow.Results
import FinmarsWorkflow.Tenancy
import FinmarsWorkflow.Chain.Sequence
import FinmarsWorkflow.Authentication
import FinmarsWorkflow.Refresh
import FinmarsWorkflow.Notebook.Streams
import FinmarsWorkflow.Notebook.Variables
