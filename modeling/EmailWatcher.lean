import EmailWatcher.Mail.Barrier
import EmailWatcher.Mail.Observations
import EmailWatcher.Connect.Sources
import EmailWatcher.Connect.Queue
import EmailWatcher.Connect.Updates
import EmailWatcher.Connect.Pauses
import EmailWatcher.Connect.Settlement
import EmailWatcher.Reconcile.Watermarks
import EmailWatcher.Calendar.Admissions
import EmailWatcher.Rules.History
import EmailWatcher.Rules.Matching
import EmailWatcher.Gmail.Pages
import EmailWatcher.Gmail.Batches
import EmailWatcher.Config.Runs
import EmailWatcher.Imap.Recovery
import EmailWatcher.Imap.Names
import EmailWatcher.Imap.Values
import EmailWatcher.Imap.Saved
import EmailWatcher.Imap.Sections
import EmailWatcher.Outbound.Runs
import EmailWatcher.Admission.Safety
import EmailWatcher.Threads.Isolation
import EmailWatcher.ThreadReads.Queries
import EmailWatcher.ThreadReads.Pages
import EmailWatcher.Inbox.Query
import EmailWatcher.Inbox.Reload
import EmailWatcher.Engine.Cancellation
import EmailWatcher.Engine.Polls
import EmailWatcher.Mime.StoredText
import EmailWatcher.Scheduling.Evidence
import EmailWatcher.Scheduling.Mailboxes
import EmailWatcher.SourceLocks.Groups
import EmailWatcher.Removal.Reports
import EmailWatcher.Deployment.Results
import EmailWatcher.ThreadReads.References
